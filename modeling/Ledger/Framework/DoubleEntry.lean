import Mathlib.Algebra.BigOperators.Group.Finset.Piecewise
import Mathlib.Logic.Function.Basic
import Mathlib.Logic.Relation

/-! # Double-Entry Bookkeeping

    What a ledger is for: accounts, and a journal that only grows.  Amounts
    are in any commutative group, accounts and owners are of any type.

    * **Entries**: the signed legs of one movement, which sum to zero.
    * **Steps**: an account is opened, or an entry is posted on accounts of
      one owner (`Step`).
    * **Soundness**: `Sound` holds initially and every step keeps it.
    * **Trial balance**: in a sound ledger the balances of the accounts of an
      owner sum to zero (`Sound.trial_balance`).
-/

namespace DoubleEntry

/-! ## Entries -/

/-- The signed legs of one movement. -/
structure Entry (τ α G : Type) where
  owner : τ
  legs : List (α × G)

section entries

variable {τ α G : Type} [DecidableEq α] [AddCommGroup G]

/-- The legs sum to zero. -/
def Entry.Balanced (e : Entry τ α G) : Prop := (e.legs.map Prod.snd).sum = 0

/-- What the entry adds to an account. -/
def Entry.on (e : Entry τ α G) (a : α) : G := ((e.legs.filter fun l => l.1 = a).map Prod.snd).sum

/-- An account without a leg gets nothing. -/
theorem Entry.on_of_not_mem {e : Entry τ α G} {a : α} (h : ∀ l ∈ e.legs, l.1 ≠ a) : e.on a = 0 := by
  have hnone : e.legs.filter (fun l => l.1 = a) = [] := by
    simpa [List.filter_eq_nil_iff] using h
  rw [Entry.on, hnone]
  rfl

/-- Over accounts that have all of its legs, an entry adds their sum. -/
theorem Entry.sum_on {e : Entry τ α G} {s : Finset α} (h : ∀ l ∈ e.legs, l.1 ∈ s) :
    ∑ a ∈ s, e.on a = (e.legs.map Prod.snd).sum := by
  obtain ⟨owner, legs⟩ := e
  unfold Entry.on
  induction legs with
  | nil => simp
  | cons l legs ih =>
    have hrest := ih fun m hm => h m (List.mem_cons_of_mem l hm)
    have hl : l.1 ∈ s := h l (List.mem_cons_self ..)
    -- the leg counts on its own account, and on no other
    have hcons : ∀ a, (((l :: legs).filter fun m => m.1 = a).map Prod.snd).sum =
        (if l.1 = a then l.2 else 0) + ((legs.filter fun m => m.1 = a).map Prod.snd).sum := by
      intro a
      by_cases ha : l.1 = a <;> simp [ha]
    simp only at hrest
    simp only [hcons, Finset.sum_add_distrib, hrest, Finset.sum_ite_eq, hl, if_true, List.map_cons,
      List.sum_cons]

end entries

/-! ## Ledgers -/

/-- The owner of each account that is open, and the journal. -/
structure Ledger (τ α G : Type) where
  owner : α → Option τ
  journal : List (Entry τ α G) := []

namespace Ledger

variable {τ α G : Type} [DecidableEq α] [AddCommGroup G]

/-- The balance of an account. -/
def balance (L : Ledger τ α G) (a : α) : G := (L.journal.map fun e => e.on a).sum

/-- The entry balances, and its legs are on accounts of its owner. -/
structure Accepts (L : Ledger τ α G) (e : Entry τ α G) : Prop where
  balanced : e.Balanced
  owned : ∀ l ∈ e.legs, L.owner l.1 = some e.owner

/-- One step of a ledger. -/
inductive Step : Ledger τ α G → Ledger τ α G → Prop where
  | opened {L} (a : α) (t : τ) (h : L.owner a = none) :
      Step L { L with owner := Function.update L.owner a (some t) }
  | posted {L} (e : Entry τ α G) (h : L.Accepts e) :
      Step L { L with journal := L.journal ++ [e] }

/-- A run of a ledger. -/
abbrev Steps : Ledger τ α G → Ledger τ α G → Prop := Relation.ReflTransGen Step

/-- Every entry of the journal is one the ledger accepts. -/
def Sound (L : Ledger τ α G) : Prop := ∀ e ∈ L.journal, L.Accepts e

variable {L L' : Ledger τ α G}

/-- An account keeps its owner. -/
theorem Step.owner (h : Step L L') {a : α} {t : τ} (ha : L.owner a = some t) :
    L'.owner a = some t := by
  cases h with
  | opened b t' hb =>
    have hne : a ≠ b := fun heq => by rw [heq, hb] at ha; cases ha
    simpa [Function.update_of_ne hne] using ha
  | posted e he => exact ha

/-- **Step lemma.** -/
theorem Sound.step (h : Sound L) (hstep : Step L L') : Sound L' := by
  have hkept : ∀ e, L.Accepts e → L'.Accepts e :=
    fun e he => ⟨he.balanced, fun l hl => hstep.owner (he.owned l hl)⟩
  intro e he
  cases hstep with
  | opened a t ha => exact hkept e (h e he)
  | posted e' he' =>
    rcases List.mem_append.mp he with he | he
    · exact hkept e (h e he)
    · exact hkept e (List.mem_singleton.mp he ▸ he')

/-- **Run lemma**: a run keeps the ledger sound, and the journal only grows. -/
theorem Sound.steps (h : Sound L) (hsteps : Steps L L') :
    Sound L' ∧ L.journal <+: L'.journal := by
  induction hsteps with
  | refl => exact ⟨h, List.prefix_refl _⟩
  | tail _ hstep ih =>
    refine ⟨ih.1.step hstep, ih.2.trans ?_⟩
    cases hstep with
    | opened a t ha => exact List.prefix_refl _
    | posted e he => exact List.prefix_append _ _

/-- **Trial balance**: the balances of the accounts of an owner sum to zero. -/
theorem Sound.trial_balance (h : Sound L) {t : τ} {s : Finset α}
    (hs : ∀ a, a ∈ s ↔ L.owner a = some t) : ∑ a ∈ s, L.balance a = 0 := by
  obtain ⟨owner, journal⟩ := L
  unfold Sound at h
  simp only [balance] at h ⊢
  -- entry by entry
  have hentries : ∀ es : List (Entry τ α G), (∀ e ∈ es, e ∈ journal) →
      ∑ a ∈ s, (es.map fun e => e.on a).sum = 0 := by
    intro es
    induction es with
    | nil => simp
    | cons e es ih =>
      intro hes
      have hrest := ih fun x hx => hes x (List.mem_cons_of_mem e hx)
      have haccepts := h e (hes e (List.mem_cons_self ..))
      simp only [List.map_cons, List.sum_cons, Finset.sum_add_distrib, hrest, add_zero]
      by_cases hown : ∃ l ∈ e.legs, l.1 ∈ s
      · -- one leg is on an account of the owner, so all are
        obtain ⟨l, hl, hmem⟩ := hown
        have howner := (haccepts.owned l hl).symm.trans ((hs l.1).mp hmem)
        rw [Entry.sum_on fun m hm => (hs m.1).mpr ((haccepts.owned m hm).trans howner)]
        exact haccepts.balanced
      · refine Finset.sum_eq_zero fun a ha => Entry.on_of_not_mem fun l hl heq => ?_
        exact hown ⟨l, hl, heq ▸ ha⟩
  exact hentries journal fun e he => he

end Ledger

end DoubleEntry

import Mathlib.Data.List.Sort
import Mathlib.Data.List.Nodup
import Mathlib.Tactic.IntervalCases

/-! # JSON Documents and Their Text

    * **Documents**: `Json`, the values built from null, integers, strings,
      arrays and objects.
    * **Writing**: `dumps`, with ASCII output (every other character is
      escaped as UTF-16 units) and a choice of separators.
    * **Reading**: `loads`, a recursive-descent reader.
    * **Round trip**: `loads_dumps`, so `dumps` is injective.
-/

/-- A JSON document. -/
inductive Json where
  | null
  | int (i : Int)
  | str (s : String)
  | arr (xs : List Json)
  | obj (fields : List (String × Json))

namespace Json

/-! ## Strings -/

/-- One lower-case hexadecimal digit. -/
def hexDigit (n : Nat) : Char := Nat.digitChar (n % 16)

/-- A 16-bit unit as four hexadecimal digits. -/
def hex4 (n : Nat) : List Char :=
  [hexDigit (n / 4096), hexDigit (n / 256), hexDigit (n / 16), hexDigit n]

/-- The escape sequence of a 16-bit unit. -/
def unit (n : Nat) : List Char := '\\' :: 'u' :: hex4 n

/-- One character of a string literal. -/
def escape (c : Char) : List Char :=
  if c = '"' then ['\\', '"']
  else if c = '\\' then ['\\', '\\']
  else if c = '\n' then ['\\', 'n']
  else if c = '\r' then ['\\', 'r']
  else if c = '\t' then ['\\', 't']
  else if c.toNat = 12 then ['\\', 'f']
  else if c.toNat = 8 then ['\\', 'b']
  else if 32 ≤ c.toNat ∧ c.toNat < 127 then [c]
  else if c.toNat < 65536 then unit c.toNat
  -- beyond the basic plane: a surrogate pair
  else unit (55296 + (c.toNat - 65536) / 1024) ++ unit (56320 + (c.toNat - 65536) % 1024)

/-- A string literal. -/
def quote (s : String) : List Char := '"' :: s.toList.flatMap escape ++ ['"']

/-- The value of a hexadecimal digit. -/
def hexValue? (c : Char) : Option Nat :=
  if '0'.toNat ≤ c.toNat ∧ c.toNat ≤ '9'.toNat then some (c.toNat - '0'.toNat)
  else if 'a'.toNat ≤ c.toNat ∧ c.toNat ≤ 'f'.toNat then some (c.toNat - 'a'.toNat + 10)
  else none

/-- A 16-bit unit from four hexadecimal digits. -/
def unit? (a b c d : Char) : Option Nat := do
  let a ← hexValue? a
  let b ← hexValue? b
  let c ← hexValue? c
  let d ← hexValue? d
  return a * 4096 + b * 256 + c * 16 + d

/-- The character a one-letter escape stands for. -/
def unescape? (c : Char) : Option Char :=
  if c = '"' then some '"'
  else if c = '\\' then some '\\'
  else if c = 'n' then some '\n'
  else if c = 'r' then some '\r'
  else if c = 't' then some '\t'
  else if c = 'f' then some (Char.ofNat 12)
  else if c = 'b' then some (Char.ofNat 8)
  else none

/-- Read a string literal after its opening quote: its characters and what follows. -/
def readString : List Char → Option (List Char × List Char)
  | [] => none
  | '"' :: rest => some ([], rest)
  | '\\' :: 'u' :: a :: b :: c :: d :: rest =>
    match unit? a b c d with
    | none => none
    | some hi =>
      if 55296 ≤ hi ∧ hi < 56320 then
        match rest with
        | '\\' :: 'u' :: e :: f :: g :: h :: rest' =>
          match unit? e f g h with
          | none => none
          | some lo =>
            (readString rest').map fun (cs, r) =>
              (Char.ofNat (65536 + (hi - 55296) * 1024 + (lo - 56320)) :: cs, r)
        | _ => none
      else (readString rest).map fun (cs, r) => (Char.ofNat hi :: cs, r)
  | '\\' :: c :: rest =>
    match unescape? c with
    | none => none
    | some c' => (readString rest).map fun (cs, r) => (c' :: cs, r)
  | c :: rest => (readString rest).map fun (cs, r) => (c :: cs, r)

theorem hexValue?_hexDigit (n : Nat) : hexValue? (hexDigit n) = some (n % 16) := by
  unfold hexDigit
  have h : n % 16 < 16 := Nat.mod_lt _ (by omega)
  generalize n % 16 = m at h
  interval_cases m <;> rfl

theorem unit?_hex4 {n : Nat} (h : n < 65536) :
    unit? (hexDigit (n / 4096)) (hexDigit (n / 256)) (hexDigit (n / 16)) (hexDigit n) = some n := by
  simp only [unit?, hexValue?_hexDigit, Option.bind_eq_bind, Option.bind_some, Option.pure_def,
    Option.some.injEq]
  omega

theorem readString_unit {n : Nat} (h : n < 65536) (hs : ¬ (55296 ≤ n ∧ n < 56320))
    (cs : List Char) :
    readString (unit n ++ cs) = (readString cs).map fun (ds, r) => (Char.ofNat n :: ds, r) := by
  simp [unit, hex4, readString, unit?_hex4 h, hs]

theorem readString_surrogates {n : Nat} (hn : 65536 ≤ n) (h : n < 1114112) (cs : List Char) :
    readString (unit (55296 + (n - 65536) / 1024) ++ (unit (56320 + (n - 65536) % 1024) ++ cs)) =
      (readString cs).map fun (ds, r) => (Char.ofNat n :: ds, r) := by
  have h1 : 55296 + (n - 65536) / 1024 < 65536 := by omega
  have h2 : 56320 + (n - 65536) % 1024 < 65536 := by omega
  have hhi : 55296 ≤ 55296 + (n - 65536) / 1024 ∧ 55296 + (n - 65536) / 1024 < 56320 := by omega
  have hval : 65536 + (55296 + (n - 65536) / 1024 - 55296) * 1024 +
      (56320 + (n - 65536) % 1024 - 56320) = n := by omega
  simp only [unit, hex4, List.cons_append, List.nil_append, readString, unit?_hex4 h1,
    unit?_hex4 h2, hhi, hval, and_self, if_true]

/-- An escaped character is read back. -/
theorem readString_escape (c : Char) (cs : List Char) :
    readString (escape c ++ cs) = (readString cs).map fun (ds, r) => (c :: ds, r) := by
  have hvalid := c.valid
  unfold escape
  split_ifs with h1 h2 h3 h4 h5 h6 h7 h8 h9
  · subst h1; simp [readString, unescape?]
  · subst h2; simp [readString, unescape?]
  · subst h3; simp [readString, unescape?]
  · subst h4; simp [readString, unescape?]
  · subst h5; simp [readString, unescape?]
  · have : c = Char.ofNat 12 := by rw [← h6, Char.ofNat_toNat]
    simp [readString, unescape?, this]
  · have : c = Char.ofNat 8 := by rw [← h7, Char.ofNat_toNat]
    simp [readString, unescape?, this]
  · -- a printable ASCII character stands for itself
    simp only [List.cons_append, List.nil_append]
    rw [readString]
    · exact fun h => h1 h
    · intro a b e f rest hc _
      exact h2 hc
    · intro d rest hc _
      exact h2 hc
  · have hs : ¬ (55296 ≤ c.toNat ∧ c.toNat < 56320) := by
      rcases hvalid with hv | hv
      · exact fun h => absurd hv (by have := h.1; simp only [Char.toNat] at this; omega)
      · exact fun h => absurd hv.1 (by have := h.2; simp only [Char.toNat] at this; omega)
    rw [readString_unit h9 hs, Char.ofNat_toNat]
  · have hlt : c.toNat < 1114112 := by
      rcases hvalid with hv | hv
      · simp only [Char.toNat]; omega
      · exact hv.2
    rw [List.append_assoc, readString_surrogates (by omega) hlt, Char.ofNat_toNat]

/-- A string literal is read back, whatever follows it. -/
theorem readString_escapes (cs rest : List Char) :
    readString (cs.flatMap escape ++ '"' :: rest) = some (cs, rest) := by
  induction cs with
  | nil => simp [readString]
  | cons c cs ih => simp [List.append_assoc, readString_escape, ih]

/-! ## Writing -/

/-- White space. -/
def isBlank (c : Char) : Bool := c = ' ' || c = '\n' || c = '\r' || c = '\t'

/-- The white space after the comma between items and after the colon of a field. -/
structure Separators where
  item : List Char
  key : List Char
  item_blank : ∀ c ∈ item, isBlank c = true
  key_blank : ∀ c ∈ key, isBlank c = true

/-- `", "` and `": "`. -/
def Separators.spaced : Separators := ⟨[' '], [' '], by simp [isBlank], by simp [isBlank]⟩

/-- `","` and `":"`. -/
def Separators.compact : Separators := ⟨[], [], by simp, by simp⟩

mutual
/-- The text of a document. -/
def render (sep : Separators) : Json → List Char
  | .null => ['n', 'u', 'l', 'l']
  | .int i => i.repr.toList
  | .str s => quote s
  | .arr [] => ['[', ']']
  | .arr (x :: xs) => '[' :: render sep x ++ renderItems sep xs
  | .obj [] => ['{', '}']
  | .obj ((k, v) :: fs) => '{' :: quote k ++ ':' :: sep.key ++ render sep v ++ renderFields sep fs
termination_by structural j => j

/-- The items after the first one, with the closing bracket. -/
def renderItems (sep : Separators) : List Json → List Char
  | [] => [']']
  | x :: xs => ',' :: sep.item ++ render sep x ++ renderItems sep xs
termination_by structural xs => xs

/-- The fields after the first one, with the closing brace. -/
def renderFields (sep : Separators) : List (String × Json) → List Char
  | [] => ['}']
  | (k, v) :: fs =>
    ',' :: sep.item ++ quote k ++ ':' :: sep.key ++ render sep v ++ renderFields sep fs
termination_by structural fs => fs
end

/-- `json.dumps`. -/
def dumps (sep : Separators) (j : Json) : String := String.ofList (render sep j)

/-! ## Reading -/

/-- Skip white space. -/
def skip (cs : List Char) : List Char := cs.dropWhile isBlank

/-- Read a number without sign. -/
def readNat (cs : List Char) : Option (Nat × List Char) :=
  match cs.takeWhile Char.isDigit with
  | [] => none
  | ds => some (Nat.ofDigitChars 10 ds 0, cs.dropWhile Char.isDigit)

/-- Read an integer. -/
def readInt : List Char → Option (Int × List Char)
  | '-' :: cs => (readNat cs).map fun (n, r) => (-(n : Int), r)
  | cs => (readNat cs).map fun (n, r) => ((n : Int), r)

mutual
/-- Read one document. -/
def readValue : Nat → List Char → Option (Json × List Char)
  | 0, _ => none
  | n + 1, cs =>
    match skip cs with
    | 'n' :: 'u' :: 'l' :: 'l' :: rest => some (.null, rest)
    | '"' :: rest => (readString rest).map fun (s, r) => (.str (String.ofList s), r)
    | '[' :: rest =>
      match skip rest with
      | ']' :: r => some (.arr [], r)
      | _ => do
        let (x, r) ← readValue n rest
        let (xs, r) ← readItems n r
        return (.arr (x :: xs), r)
    | '{' :: rest =>
      match skip rest with
      | '}' :: r => some (.obj [], r)
      | _ => do
        let (f, r) ← readField n rest
        let (fs, r) ← readFields n r
        return (.obj (f :: fs), r)
    | rest => (readInt rest).map fun (i, r) => (.int i, r)
termination_by structural n => n

/-- Read the items after the first one. -/
def readItems : Nat → List Char → Option (List Json × List Char)
  | 0, _ => none
  | n + 1, cs =>
    match skip cs with
    | ']' :: rest => some ([], rest)
    | ',' :: rest => do
      let (x, r) ← readValue n rest
      let (xs, r) ← readItems n r
      return (x :: xs, r)
    | _ => none
termination_by structural n => n

/-- Read one field of an object. -/
def readField : Nat → List Char → Option ((String × Json) × List Char)
  | 0, _ => none
  | n + 1, cs =>
    match skip cs with
    | '"' :: rest => do
      let (k, r) ← readString rest
      match skip r with
      | ':' :: r => do
        let (v, r) ← readValue n r
        return ((String.ofList k, v), r)
      | _ => none
    | _ => none
termination_by structural n => n

/-- Read the fields after the first one. -/
def readFields : Nat → List Char → Option (List (String × Json) × List Char)
  | 0, _ => none
  | n + 1, cs =>
    match skip cs with
    | '}' :: rest => some ([], rest)
    | ',' :: rest => do
      let (f, r) ← readField n rest
      let (fs, r) ← readFields n r
      return (f :: fs, r)
    | _ => none
termination_by structural n => n
end

/-- `json.loads`: one document and nothing after it. -/
def loads (s : String) : Option Json :=
  match readValue (s.toList.length + 1) s.toList with
  | some (j, rest) => if skip rest = [] then some j else none
  | none => none

/-! ## Round Trip -/

theorem skip_blanks {bs : List Char} (h : ∀ c ∈ bs, isBlank c = true) (cs : List Char) :
    skip (bs ++ cs) = skip cs := by
  induction bs with
  | nil => rfl
  | cons b bs ih =>
    have hb : isBlank b = true := h b (by simp)
    simpa [skip, hb] using ih (fun c hc => h c (by simp [hc]))

theorem skip_cons {c : Char} (h : isBlank c = false) (cs : List Char) :
    skip (c :: cs) = c :: cs := by
  simp [skip, h]

/-- What follows does not go on an integer. -/
def Stops (rest : List Char) : Prop := ∀ c, rest.head? = some c → c.isDigit = false

theorem readNat_repr (n : Nat) {rest : List Char} (h : Stops rest) :
    readNat (n.repr.toList ++ rest) = some (n, rest) := by
  have hall : ∀ c ∈ n.repr.toList, c.isDigit = true := fun c hc => by
    rw [Nat.toList_repr] at hc
    exact Nat.isDigit_of_mem_toDigits (by omega) (by omega) hc
  have htake : rest.takeWhile Char.isDigit = [] := by
    cases rest with
    | nil => rfl
    | cons c cs => simp [h c rfl]
  have hdrop : rest.dropWhile Char.isDigit = rest := by
    cases rest with
    | nil => rfl
    | cons c cs => simp [h c rfl]
  rw [readNat, List.takeWhile_append_of_pos hall, List.dropWhile_append_of_pos hall, htake, hdrop,
    List.append_nil, Nat.toList_repr]
  split
  · rename_i heq
    exact absurd heq Nat.toDigits_ne_nil
  · rw [Nat.ofDigitChars_ten_toDigits]

theorem readInt_repr (i : Int) {rest : List Char} (h : Stops rest) :
    readInt (i.repr.toList ++ rest) = some (i, rest) := by
  cases i with
  | ofNat n =>
    have hne : ∀ cs, n.repr.toList ++ rest ≠ '-' :: cs := by
      intro cs heq
      rw [Nat.toList_repr] at heq
      obtain ⟨d, ds, hds⟩ := List.exists_cons_of_ne_nil (Nat.toDigits_ne_nil (n := n) (b := 10))
      rw [hds, List.cons_append, List.cons.injEq] at heq
      have : d.isDigit = true :=
        Nat.isDigit_of_mem_toDigits (b := 10) (n := n) (by omega) (by omega) (by simp [hds])
      rw [heq.1] at this
      exact absurd this (by decide)
    have hrepr : (Int.ofNat n).repr = n.repr := rfl
    rw [hrepr]
    unfold readInt
    split
    · rename_i cs heq
      exact absurd heq (hne cs)
    · rw [readNat_repr n h]; rfl
  | negSucc n =>
    have hrepr : (Int.negSucc n).repr.toList = '-' :: (n + 1).repr.toList := by
      simp [Int.repr]
    rw [hrepr, List.cons_append, readInt, readNat_repr (n + 1) h]
    rfl

/-- Different numbers are written differently. -/
theorem int_repr_inj {i j : Int} : i.repr = j.repr ↔ i = j := by
  refine ⟨fun h => ?_, fun h => h ▸ rfl⟩
  have hi : readInt (i.repr.toList ++ []) = some (i, []) := readInt_repr i (by simp [Stops])
  have hj : readInt (j.repr.toList ++ []) = some (j, []) := readInt_repr j (by simp [Stops])
  rw [h, hj, Option.some.injEq, Prod.mk.injEq] at hi
  exact hi.1.symm

mutual
/-- How deep the reader goes into a document. -/
def depth : Json → Nat
  | .null => 1
  | .int _ => 1
  | .str _ => 1
  | .arr [] => 1
  | .arr (x :: xs) => 1 + depth x + depthItems xs
  | .obj [] => 1
  | .obj ((_, v) :: fs) => 2 + depth v + depthFields fs
termination_by structural j => j

/-- How deep the reader goes into a list of items. -/
def depthItems : List Json → Nat
  | [] => 1
  | x :: xs => 1 + depth x + depthItems xs
termination_by structural xs => xs

/-- How deep the reader goes into a list of fields. -/
def depthFields : List (String × Json) → Nat
  | [] => 1
  | (_, v) :: fs => 2 + depth v + depthFields fs
termination_by structural fs => fs
end

theorem length_quote (s : String) : 2 ≤ (quote s).length := by
  simp [quote]

mutual
/-- The text of a document is at least as long as its depth. -/
theorem depth_le_length (sep : Separators) : ∀ j, depth j ≤ (render sep j).length
  | .null => by simp [depth, render]
  | .int i => by
    have hne : i.repr.toList ≠ [] := by
      cases i with
      | ofNat n => exact fun h => absurd (String.toList_eq_nil_iff.mp h) Nat.repr_ne_empty
      | negSucc n => simp [Int.repr]
    simpa [depth, render, Nat.succ_le_iff] using List.length_pos_iff.mpr hne
  | .str s => by simp [depth, render, quote]
  | .arr [] => by simp [depth, render]
  | .arr (x :: xs) => by
    have h1 := depth_le_length sep x
    have h2 := depthItems_le_length sep xs
    simp only [depth, render, List.cons_append, List.length_cons, List.length_append]
    omega
  | .obj [] => by simp [depth, render]
  | .obj ((k, v) :: fs) => by
    have h1 := depth_le_length sep v
    have h2 := depthFields_le_length sep fs
    have h3 := length_quote k
    simp only [depth, render, List.cons_append, List.length_cons, List.length_append]
    omega
termination_by structural j => j

theorem depthItems_le_length (sep : Separators) :
    ∀ xs, depthItems xs ≤ (renderItems sep xs).length
  | [] => by simp [depthItems, renderItems]
  | x :: xs => by
    have h1 := depth_le_length sep x
    have h2 := depthItems_le_length sep xs
    simp only [depthItems, renderItems, List.cons_append, List.length_cons, List.length_append]
    omega
termination_by structural xs => xs

theorem depthFields_le_length (sep : Separators) :
    ∀ fs, depthFields fs ≤ (renderFields sep fs).length
  | [] => by simp [depthFields, renderFields]
  | (k, v) :: fs => by
    have h1 := depth_le_length sep v
    have h2 := depthFields_le_length sep fs
    have h3 := length_quote k
    simp only [depthFields, renderFields, List.cons_append, List.length_cons, List.length_append]
    omega
termination_by structural fs => fs
end

theorem stops_cons {c : Char} (h : c.isDigit = false) (cs : List Char) : Stops (c :: cs) := by
  intro d hd
  cases hd
  exact h

theorem stops_renderItems (sep : Separators) (xs : List Json) (rest : List Char) :
    Stops (renderItems sep xs ++ rest) := by
  cases xs <;> exact stops_cons (by decide) _

theorem stops_renderFields (sep : Separators) (fs : List (String × Json)) (rest : List Char) :
    Stops (renderFields sep fs ++ rest) := by
  cases fs <;> exact stops_cons (by decide) _

/-- The first character of an integer. -/
theorem repr_head (i : Int) : ∃ c cs, i.repr.toList = c :: cs ∧ (c = '-' ∨ c.isDigit = true) := by
  cases i with
  | ofNat n =>
    obtain ⟨c, cs, hcs⟩ := List.exists_cons_of_ne_nil (Nat.toDigits_ne_nil (n := n) (b := 10))
    refine ⟨c, cs, ?_, Or.inr (Nat.isDigit_of_mem_toDigits (b := 10) (n := n) ?_ ?_ ?_)⟩
    · exact (Nat.toList_repr (n := n)).trans hcs
    · omega
    · omega
    · simp [hcs]
  | negSucc n => exact ⟨'-', (n + 1).repr.toList, by simp [Int.repr], Or.inl rfl⟩

/-- The first character of a document. -/
theorem render_head (sep : Separators) (j : Json) : ∃ c cs, render sep j = c :: cs ∧
    isBlank c = false ∧ c ≠ ']' ∧ c ≠ '}' := by
  have hint : ∀ c : Char, c = '-' ∨ c.isDigit = true → isBlank c = false ∧ c ≠ ']' ∧ c ≠ '}' := by
    rintro c (rfl | h)
    · decide
    · refine ⟨?_, ?_, ?_⟩
      · by_contra hb
        simp only [isBlank, Bool.or_eq_true, decide_eq_true_eq, Bool.not_eq_false] at hb
        rcases hb with ((rfl | rfl) | rfl) | rfl <;> exact absurd h (by decide)
      · rintro rfl; exact absurd h (by decide)
      · rintro rfl; exact absurd h (by decide)
  cases j with
  | null => exact ⟨'n', _, rfl, by decide⟩
  | int i =>
    obtain ⟨c, cs, hcs, hc⟩ := repr_head i
    exact ⟨c, cs, by simp [render, hcs], hint c hc⟩
  | str s => exact ⟨'"', _, rfl, by decide⟩
  | arr xs => cases xs <;> exact ⟨'[', _, rfl, by decide⟩
  | obj fs =>
    cases fs with
    | nil => exact ⟨'{', _, rfl, by decide⟩
    | cons f fs => obtain ⟨k, v⟩ := f; exact ⟨'{', _, rfl, by decide⟩

theorem skip_render (sep : Separators) (j : Json) (rest : List Char) :
    skip (render sep j ++ rest) = render sep j ++ rest := by
  obtain ⟨c, cs, hcs, hc, -, -⟩ := render_head sep j
  rw [hcs, List.cons_append, skip_cons hc]

/-- Blanks before a document are skipped. -/
theorem readValue_blanks {bs : List Char} (h : ∀ c ∈ bs, isBlank c = true) (n : Nat)
    (cs : List Char) : readValue n (bs ++ cs) = readValue n cs := by
  cases n with
  | zero => rfl
  | succ n => simp only [readValue, skip_blanks h]

theorem readField_blanks {bs : List Char} (h : ∀ c ∈ bs, isBlank c = true) (n : Nat)
    (cs : List Char) : readField n (bs ++ cs) = readField n cs := by
  cases n with
  | zero => rfl
  | succ n => simp only [readField, skip_blanks h]

theorem readString_quote (s : String) (rest : List Char) :
    readString (s.toList.flatMap escape ++ ['"'] ++ rest) = some (s.toList, rest) := by
  simpa using readString_escapes s.toList rest

/-- A field is read back if its value is. -/
theorem readField_render {sep : Separators} {v : Json} {n : Nat} {rest : List Char} (k : String)
    (hv : readValue n (render sep v ++ rest) = some (v, rest)) :
    readField (n + 1) (quote k ++ ':' :: (sep.key ++ (render sep v ++ rest))) =
      some ((k, v), rest) := by
  have hq := readString_quote k (':' :: (sep.key ++ (render sep v ++ rest)))
  simp only [readField, quote, List.cons_append,
    skip_cons (show isBlank '"' = false by decide), hq, Option.bind_eq_bind, Option.bind_some,
    skip_cons (show isBlank ':' = false by decide), readValue_blanks sep.key_blank, hv]
  simp

theorem depth_pos (j : Json) : 0 < depth j := by
  cases j with
  | arr xs => cases xs <;> simp [depth]
  | obj fs => cases fs <;> simp [depth]
  | _ => simp [depth]

mutual
/-- A document is read back, whatever follows it. -/
theorem readValue_render (sep : Separators) : ∀ (j : Json) (n : Nat) (rest : List Char),
    depth j ≤ n → Stops rest → readValue n (render sep j ++ rest) = some (j, rest)
  | j, 0, rest, hn, _ => absurd (depth_pos j) (by omega)
  | .null, n + 1, rest, _, _ => by
    rw [readValue, skip_render]
    rfl
  | .int i, n + 1, rest, _, hrest => by
    obtain ⟨c, cs, hcs, hc⟩ := repr_head i
    have hread := readInt_repr i hrest
    have hne : ∀ d : Char, d ≠ '-' → d.isDigit = false → c ≠ d := by
      rintro d hd hd' rfl
      rcases hc with rfl | hc
      · exact hd rfl
      · rw [hc] at hd'; cases hd'
    rw [readValue, skip_render]
    simp only [render]
    rw [hcs, List.cons_append] at hread ⊢
    -- the first character is none of the other documents' first characters
    split
    · rename_i heq; exact absurd (List.cons.inj heq).1 (hne _ (by decide) (by decide))
    · rename_i heq; exact absurd (List.cons.inj heq).1 (hne _ (by decide) (by decide))
    · rename_i heq; exact absurd (List.cons.inj heq).1 (hne _ (by decide) (by decide))
    · rename_i heq; exact absurd (List.cons.inj heq).1 (hne _ (by decide) (by decide))
    · rw [hread]; rfl
  | .str s, n + 1, rest, _, _ => by
    rw [readValue, skip_render]
    simp only [render, quote, List.cons_append]
    rw [readString_quote]
    simp
  | .arr [], n + 1, rest, _, _ => by
    rw [readValue, skip_render]
    simp [render, skip_cons (show isBlank ']' = false by decide)]
  -- the first item decides that the list is not empty
  | .arr (x :: xs), n + 1, rest, hn, hrest => by
    simp only [depth] at hn
    obtain ⟨c, cs, hcs, -, hne, -⟩ := render_head sep x
    have hx := readValue_render sep x n (renderItems sep xs ++ rest) (by omega)
      (stops_renderItems sep xs rest)
    have hxs := readItems_render sep xs n rest (by omega)
    have hskip := skip_render sep x (renderItems sep xs ++ rest)
    rw [readValue, skip_render]
    simp only [render, List.cons_append, List.append_assoc]
    rw [hskip]
    split
    · rename_i heq
      rw [hcs, List.cons_append, List.cons.injEq] at heq
      exact absurd heq.1 hne
    · simp [hx, hxs]
  | .obj [], n + 1, rest, _, _ => by
    rw [readValue, skip_render]
    simp [render, skip_cons (show isBlank '}' = false by decide)]
  | .obj ((k, v) :: fs), n + 1, rest, hn, hrest => by
    simp only [depth] at hn
    -- a field costs one level more than its value
    obtain ⟨m, rfl⟩ : ∃ m, n = m + 1 := ⟨n - 1, by omega⟩
    have hv := readValue_render sep v m (renderFields sep fs ++ rest) (by omega)
      (stops_renderFields sep fs rest)
    have hf := readField_render k hv
    have hfs := readFields_render sep fs (m + 1) rest (by omega)
    have hskip : ∀ cs, skip (quote k ++ cs) = quote k ++ cs := fun cs =>
      skip_cons (show isBlank '"' = false by decide) _
    rw [readValue, skip_render]
    simp only [render, List.cons_append, List.append_assoc]
    rw [hskip]
    split
    · rename_i heq
      rw [quote, List.cons_append, List.cons_append] at heq
      exact absurd (List.cons.inj heq).1 (by decide)
    · simp [hf, hfs]
termination_by structural j => j

theorem readItems_render (sep : Separators) : ∀ (xs : List Json) (n : Nat) (rest : List Char),
    depthItems xs ≤ n → readItems n (renderItems sep xs ++ rest) = some (xs, rest)
  | [], 0, _, hn => by simp [depthItems] at hn
  | _ :: _, 0, _, hn => by simp [depthItems] at hn
  | [], n + 1, rest, _ => by
    simp [readItems, renderItems, skip_cons (show isBlank ']' = false by decide)]
  | x :: xs, n + 1, rest, hn => by
    simp only [depthItems] at hn
    have hx := readValue_render sep x n (renderItems sep xs ++ rest) (by omega)
      (stops_renderItems sep xs rest)
    have hxs := readItems_render sep xs n rest (by omega)
    simp only [readItems, renderItems, List.cons_append, List.append_assoc,
      skip_cons (show isBlank ',' = false by decide), readValue_blanks sep.item_blank, hx]
    simp [hxs]
termination_by structural xs => xs

theorem readFields_render (sep : Separators) : ∀ (fs : List (String × Json)) (n : Nat)
    (rest : List Char), depthFields fs ≤ n →
    readFields n (renderFields sep fs ++ rest) = some (fs, rest)
  | [], 0, _, hn => by simp [depthFields] at hn
  | (_, _) :: _, 0, _, hn => by simp [depthFields] at hn
  | [], n + 1, rest, _ => by
    simp [readFields, renderFields, skip_cons (show isBlank '}' = false by decide)]
  | (k, v) :: fs, n + 1, rest, hn => by
    simp only [depthFields] at hn
    obtain ⟨m, rfl⟩ : ∃ m, n = m + 1 := ⟨n - 1, by omega⟩
    have hv := readValue_render sep v m (renderFields sep fs ++ rest) (by omega)
      (stops_renderFields sep fs rest)
    have hf := readField_render k hv
    have hfs := readFields_render sep fs (m + 1) rest (by omega)
    rw [readFields]
    simp only [renderFields, List.cons_append, List.append_assoc,
      skip_cons (show isBlank ',' = false by decide), readField_blanks sep.item_blank, hf]
    simp [hfs]
termination_by structural fs => fs
end

/-- **`loads` undoes `dumps`.** -/
theorem loads_dumps (sep : Separators) (j : Json) : loads (dumps sep j) = some j := by
  have hdepth := depth_le_length sep j
  have hread := readValue_render sep j ((render sep j).length + 1) [] (by omega)
    (by intro c hc; cases hc)
  rw [List.append_nil] at hread
  simp [loads, dumps, hread, skip]

theorem dumps_injective (sep : Separators) : Function.Injective (dumps sep) := by
  intro j j' h
  have := congrArg loads h
  simpa [loads_dumps] using this

/-! ## Sorted Keys -/

mutual
/-- The document with the fields of every object sorted by key. -/
def sortKeys : Json → Json
  | .null => .null
  | .int i => .int i
  | .str s => .str s
  | .arr xs => .arr (sortItems xs)
  | .obj fs => .obj ((sortFields fs).insertionSort fun a b => a.1 ≤ b.1)
termination_by structural j => j

/-- `sortKeys` on every item. -/
def sortItems : List Json → List Json
  | [] => []
  | x :: xs => sortKeys x :: sortItems xs
termination_by structural xs => xs

/-- `sortKeys` on the value of every field. -/
def sortFields : List (String × Json) → List (String × Json)
  | [] => []
  | (k, v) :: fs => (k, sortKeys v) :: sortFields fs
termination_by structural fs => fs
end

/-- A value without parts. -/
def Flat : Json → Prop
  | .null | .int _ | .str _ => True
  | _ => False

theorem sortFields_of_flat {fs : List (String × Json)} (h : ∀ f ∈ fs, f.2.Flat) :
    sortFields fs = fs := by
  induction fs with
  | nil => rfl
  | cons f fs ih =>
    obtain ⟨k, v⟩ := f
    have hv : v.Flat := h (k, v) (by simp)
    have hfs := ih (fun f hf => h f (by simp [hf]))
    cases v <;> first | exact hv.elim | simp [sortFields, sortKeys, hfs]

/-- Sorting the keys of flat objects does not identify objects with different fields. -/
theorem perm_of_sortKeys_eq {fs gs : List (String × Json)} (hf : ∀ f ∈ fs, f.2.Flat)
    (hg : ∀ g ∈ gs, g.2.Flat) (h : sortKeys (.obj fs) = sortKeys (.obj gs)) : fs.Perm gs := by
  simp only [sortKeys, sortFields_of_flat hf, sortFields_of_flat hg, Json.obj.injEq] at h
  exact (List.perm_insertionSort _ fs).symm.trans (h ▸ List.perm_insertionSort _ gs)

/-- By key. -/
def keyOrder (a b : String × Json) : Prop := a.1 ≤ b.1

instance : DecidableRel keyOrder := fun a b => inferInstanceAs (Decidable (a.1 ≤ b.1))

instance : Std.Total keyOrder := ⟨fun a b => String.le_total a.1 b.1⟩

instance : IsTrans (String × Json) keyOrder := ⟨fun _ _ _ => String.le_trans⟩

/-- Sorting by key is canonical: the order of the fields is forgotten. -/
theorem sortKeys_eq_of_perm {fs gs : List (String × Json)} (hf : ∀ f ∈ fs, f.2.Flat)
    (hg : ∀ g ∈ gs, g.2.Flat) (hnd : (fs.map Prod.fst).Nodup) (h : fs.Perm gs) :
    sortKeys (.obj fs) = sortKeys (.obj gs) := by
  simp only [sortKeys, sortFields_of_flat hf, sortFields_of_flat hg, Json.obj.injEq]
  have hfs : (fs.insertionSort fun a b => a.1 ≤ b.1).Pairwise keyOrder :=
    List.pairwise_insertionSort keyOrder fs
  have hgs : (gs.insertionSort fun a b => a.1 ≤ b.1).Pairwise keyOrder :=
    List.pairwise_insertionSort keyOrder gs
  have hperm : (fs.insertionSort fun a b => a.1 ≤ b.1).Perm
      (gs.insertionSort fun a b => a.1 ≤ b.1) :=
    ((List.perm_insertionSort _ fs).trans h).trans (List.perm_insertionSort _ gs).symm
  refine hperm.eq_of_pairwise ?_ hfs hgs
  -- no two fields have one key, so none tie
  intro a b ha hb hab hba
  have ha' : a ∈ fs := (List.perm_insertionSort _ fs).subset ha
  have hb' : b ∈ fs := h.symm.subset ((List.perm_insertionSort _ gs).subset hb)
  exact List.inj_on_of_nodup_map hnd ha' hb' (String.le_antisymm hab hba)

/-- Two lists of fields with the same keys in the same order and the same
    fields overall are equal. -/
theorem eq_of_perm {fs gs : List (String × Json)} (hkeys : fs.map Prod.fst = gs.map Prod.fst)
    (hnd : (fs.map Prod.fst).Nodup) (h : fs.Perm gs) : fs = gs := by
  have hlen : fs.length = gs.length := h.length_eq
  refine List.ext_getElem hlen fun i hi hi' => ?_
  have hmem : fs[i] ∈ gs := h.mem_iff.mp (List.getElem_mem hi)
  have hk : fs[i].1 = gs[i].1 := by
    have := congrArg (fun l => l[i]?) hkeys
    simpa [hi, hi'] using this
  exact List.inj_on_of_nodup_map (hkeys ▸ hnd) hmem (List.getElem_mem hi') hk

end Json

import ExprLang.Evaluation
import ExprLang.Proofs.Printing.Lexemes

namespace ExprLang

namespace Text

open Quoted

/-- A Unicode scalar value: a code point that is no surrogate. -/
def IsScalar (n : Int) : Prop := (0 ≤ n ∧ n < 0xD800) ∨ (0xDFFF < n ∧ n ≤ 0x10FFFF)

instance (n : Int) : Decidable (IsScalar n) :=
  inferInstanceAs (Decidable ((0 ≤ n ∧ n < 0xD800) ∨ (0xDFFF < n ∧ n ≤ 0x10FFFF)))

theorem isScalar_iff (n : Int) : IsScalar n ↔ 0 ≤ n ∧ n.toNat.isValidChar := by
  unfold IsScalar Nat.isValidChar
  omega

theorem scalar?_eq_none_iff (n : Int64) : scalar? n = none ↔ ¬ IsScalar n.toInt := by
  rw [scalar?, isScalar_iff]
  split
  · rename_i h
    exact iff_of_false (Option.some_ne_none _) (not_not_intro h)
  · rename_i h
    exact iff_of_true rfl h

theorem toNat_ofNat_of_isValidChar {n : Nat} (h : n.isValidChar) : (Char.ofNat n).toNat = n := by
  rw [Char.ofNat, dif_pos h]
  rfl

/-- Only the code point of a character stands for it: no integer is cut off to fit. -/
theorem scalar?_eq_some_iff (n : Int64) (c : Char) : scalar? n = some c ↔ n = code c := by
  constructor
  · intro h
    rw [scalar?] at h
    split at h
    · rename_i hn
      obtain ⟨hnonneg, hvalid⟩ := hn
      have hc : c.toNat = n.toInt.toNat := by
        rw [← Option.some.inj h, toNat_ofNat_of_isValidChar hvalid]
      apply Int64.toInt_inj.1
      rw [toInt_code, hc, Int.toNat_of_nonneg hnonneg]
    · cases h
  · intro h
    rw [h]
    exact scalar?_code c

end Text

namespace Value

mutual

theorem same_iff : (v w : Value) → (v.same w = true ↔ v = w)
  | bool a, w => by cases w <;> simp [same]
  | int a, w => by cases w <;> simp [same]
  | list as, w => by cases w <;> simp [same, sameAll_iff as]
  | tuple as, w => by cases w <;> simp [same, sameAll_iff as]
  | fn f, w => by cases w <;> simp [same]

theorem sameAll_iff : (vs ws : List Value) → (sameAll vs ws = true ↔ vs = ws)
  | [], ws => by cases ws <;> simp [sameAll]
  | v :: vs, ws => by cases ws <;> simp [sameAll, same_iff v, sameAll_iff vs]

end

def IsCharacter : Value → Prop
  | int n => Text.IsScalar n.toInt
  | _ => False

instance : DecidablePred IsCharacter
  | int n => inferInstanceAs (Decidable (Text.IsScalar n.toInt))
  | bool _ | list _ | tuple _ | fn _ => inferInstanceAs (Decidable False)

/-- What is wrong with a value in the place of a character. -/
def offence : Value → RuntimeFault
  | int n => .invalidCharacter n
  | v => .typeFault "Int" v.text

theorem isCharacter_iff (v : Value) : v.IsCharacter ↔ ∃ c, v = int (Text.code c) := by
  cases v with
  | int n =>
    have hsome : Text.IsScalar n.toInt ↔ ∃ c, Text.scalar? n = some c := by
      rw [← Option.ne_none_iff_exists', ne_eq, Text.scalar?_eq_none_iff, Classical.not_not]
    simp only [IsCharacter, hsome, Text.scalar?_eq_some_iff, int.injEq]
  | bool | list | tuple | fn => simp [IsCharacter]

theorem decode_cons_code (c : Char) (vs : List Value) :
    decode (int (Text.code c) :: vs) = (decode vs).map (c :: ·) := by
  rw [decode, (Text.scalar?_eq_some_iff _ c).2 rfl]
  cases decode vs <;> rfl

theorem decode_cons_of_not_isCharacter {v : Value} (h : ¬ v.IsCharacter) (vs : List Value) :
    decode (v :: vs) = .error v.offence := by
  cases v with
  | int n => rw [decode, (Text.scalar?_eq_none_iff n).2 h, offence]
  | bool | list | tuple | fn => rfl

theorem decode_codes (cs : List Char) : decode (cs.map fun c => int (Text.code c)) = .ok cs := by
  induction cs with
  | nil => rfl
  | cons c cs ih =>
    rw [List.map_cons, decode_cons_code, ih]
    rfl

theorem ofText_eq (s : String) : ofText s = list (s.toList.map fun c => int (Text.code c)) := by
  rw [ofText, ofCodes, Text.codes, List.map_map]
  rfl

theorem exists_ofText {vs : List Value} (h : ∀ v ∈ vs, v.IsCharacter) :
    ∃ s, list vs = ofText s := by
  induction vs with
  | nil => exact ⟨"", rfl⟩
  | cons v vs ih =>
    obtain ⟨hv, hvs⟩ := List.forall_mem_cons.1 h
    obtain ⟨c, rfl⟩ := (isCharacter_iff v).1 hv
    obtain ⟨s, hs⟩ := ih hvs
    rw [ofText_eq, list.injEq] at hs
    apply Exists.intro (String.ofList (c :: s.toList))
    rw [ofText_eq, String.toList_ofList, hs, List.map_cons]

/-- Up to the first value that is no character, nothing is a fault. -/
theorem decode_of_find? {vs : List Value} {v : Value}
    (h : vs.find? (fun u => !decide u.IsCharacter) = some v) : decode vs = .error v.offence := by
  induction vs with
  | nil => cases h
  | cons u vs ih =>
    by_cases hu : u.IsCharacter
    · rw [List.find?_cons_of_neg (by simp [hu])] at h
      obtain ⟨c, rfl⟩ := (isCharacter_iff u).1 hu
      rw [decode_cons_code, ih h]
      rfl
    · rw [List.find?_cons_of_pos (by simp [hu])] at h
      cases h
      exact decode_cons_of_not_isCharacter hu vs

end Value

/-- Prints one text and is done, with the empty tuple or with the failure of the host. -/
def Dialogue.printing (text : String) (m : Memo) : Dialogue (Outcome Value × Memo) :=
  .print text fun
    | .ok () => .done (.value .unit, m)
    | .error message => .done (.error (.host message), m)

def Dialogue.isDone {α : Type} : Dialogue α → Bool
  | done _ => true
  | _ => false

namespace Builtin

variable {pos : Position} {m : Memo}

theorem call_print_list (codes : List Value) :
    print.call [.list codes] pos =
      (Eval.lift (Value.decode codes) pos >>= fun text => do
        Eval.print (String.ofList text)
        pure .unit) := rfl

theorem call_print_of_ok {codes : List Value} {cs : List Char}
    (h : Value.decode codes = .ok cs) :
    print.call [.list codes] pos m = .printing (String.ofList cs) m := by
  rw [call_print_list, h]
  apply congrArg (Dialogue.print _)
  funext answer
  cases answer <;> rfl

theorem call_print_of_error {codes : List Value} {fault : RuntimeFault}
    (h : Value.decode codes = .error fault) :
    print.call [.list codes] pos m = .done (.error (.fault ⟨fault, pos⟩), m) := by
  rw [call_print_list, h]
  rfl

end Builtin

namespace Program

variable (p : Program) (n : Nat) (pos : Position) (m : Memo)

/-- Printing the list of the code points of a text is one request, to print that text. For any list,
the host is asked exactly if all values in it are characters; then it prints the text that the list
stands for, and otherwise the call ends in the fault of the first value that is no character. -/
theorem call_print_faithful :
    (∀ s : String,
      p.call (n + 1) (.fn (.builtin .print)) [.ofText s] pos m = .printing s m) ∧
      ∀ l : List Value,
        let d := p.call (n + 1) (.fn (.builtin .print)) [.list l] pos m
        (d.isDone = false ↔ ∀ v ∈ l, v.IsCharacter) ∧
          ((∀ v ∈ l, v.IsCharacter) →
            ∃ t, d = .printing t m ∧ (Value.ofText t).same (.list l) = true) ∧
          ∀ v, l.find? (fun u => !decide u.IsCharacter) = some v →
            d = .done (.error (.fault ⟨v.offence, pos⟩), m) := by
  have hcall (args : List Value) :
      p.call (n + 1) (.fn (.builtin .print)) args pos = Builtin.print.call args pos := rfl
  have htext (s : String) :
      p.call (n + 1) (.fn (.builtin .print)) [.ofText s] pos m = .printing s m := by
    rw [hcall, Value.ofText_eq, Builtin.call_print_of_ok (Value.decode_codes s.toList),
      String.ofList_toList]
  have hoffence (l : List Value) (v : Value)
      (hv : l.find? (fun u => !decide u.IsCharacter) = some v) :
      p.call (n + 1) (.fn (.builtin .print)) [.list l] pos m =
        .done (.error (.fault ⟨v.offence, pos⟩), m) := by
    rw [hcall, Builtin.call_print_of_error (Value.decode_of_find? hv)]
  constructor
  · exact htext
  intro l
  constructor
  · constructor
    · intro hasked v hv
      apply Decidable.byContradiction
      intro hnot
      have hfound : (l.find? fun u => !decide u.IsCharacter).isSome = true :=
        List.find?_isSome.2 ⟨v, hv, by simp [hnot]⟩
      obtain ⟨u, hu⟩ := Option.isSome_iff_exists.1 hfound
      rw [hoffence l u hu] at hasked
      cases hasked
    · intro hl
      obtain ⟨s, hs⟩ := Value.exists_ofText hl
      rw [hs, htext]
      rfl
  constructor
  · intro hl
    obtain ⟨s, hs⟩ := Value.exists_ofText hl
    rw [hs]
    exact ⟨s, htext s, (Value.same_iff _ _).2 rfl⟩
  · exact hoffence l

/-- A surrogate between a letter and a truth value, so that the letter is not printed and the truth
value is not reached. -/
theorem call_print_faithful_surrogate :
    call ⟨[], []⟩ 1 (.fn (.builtin .print)) [.list [.int 65, .int 0xD800, .bool true]] .start [] =
      .done (.error (.fault ⟨.invalidCharacter 0xD800, .start⟩), []) :=
  ((call_print_faithful ⟨[], []⟩ 0 .start []).2 [.int 65, .int 0xD800, .bool true]).2.2
    (.int 0xD800) rfl

end Program

end ExprLang

import ExprLang.Evaluation
import ExprLang.Proofs.Table

namespace ExprLang

variable {α β : Type}

namespace Dialogue

/-- However the host answers, the dialogue ends in a result with the property. -/
def Always (P : α → Prop) : Dialogue α → Prop
  | done a => P a
  | print _ next => ∀ answer, (next answer).Always P
  | readLine next => ∀ answer, (next answer).Always P
  | rand _ next => ∀ answer, (next answer).Always P

variable {P Q : α → Prop} {d : Dialogue α}

theorem Always.imp (h : d.Always P) (hPQ : ∀ a, P a → Q a) : d.Always Q := by
  induction d with
  | done a => exact hPQ a h
  | print text next ih => exact fun answer => ih answer (h answer)
  | readLine next ih => exact fun answer => ih answer (h answer)
  | rand bound next ih => exact fun answer => ih answer (h answer)

theorem Always.bind {R : β → Prop} {f : α → Dialogue β} (h : d.Always P)
    (hf : ∀ a, P a → (f a).Always R) : (d.bind f).Always R := by
  induction d with
  | done a => exact hf a h
  | print text next ih => exact fun answer => ih answer (h answer)
  | readLine next ih => exact fun answer => ih answer (h answer)
  | rand bound next ih => exact fun answer => ih answer (h answer)

theorem Always.bind_congr {f g : α → Dialogue β} (h : d.Always P)
    (hfg : ∀ a, P a → f a = g a) : d.bind f = d.bind g := by
  induction d with
  | done a => exact hfg a h
  | print text next ih => exact congrArg (Dialogue.print text) (funext fun a => ih a (h a))
  | readLine next ih => exact congrArg Dialogue.readLine (funext fun a => ih a (h a))
  | rand bound next ih => exact congrArg (Dialogue.rand bound) (funext fun a => ih a (h a))

/-- The error that a dialogue ends in before it makes a request. -/
def failure? : Dialogue (Outcome α) → Option RuntimeError
  | done (.error e) => some e
  | _ => none

theorem eq_done_of_failure? {d : Dialogue (Outcome α)} {e : RuntimeError}
    (h : d.failure? = some e) : d = .done (.error e) := by
  unfold failure? at h
  split at h <;> cases h
  rfl

theorem Always.of_forall {ι : Type} {P : ι → α → Prop} (h : ∀ i, d.Always (P i)) :
    d.Always fun a => ∀ i, P i a := by
  induction d with
  | done a => exact h
  | print text next ih => exact fun answer => ih answer fun i => h i answer
  | readLine next ih => exact fun answer => ih answer fun i => h i answer
  | rand bound next ih => exact fun answer => ih answer fun i => h i answer

end Dialogue

namespace Memo

theorem lookup_erase (m : Memo) (name other : String) :
    (m.erase name).lookup other = if other = name then none else m.lookup other :=
  lookup_filter_ne m name other

theorem lookup_insert (m : Memo) (name other : String) (slot : Slot) :
    (m.insert name slot).lookup other = if other = name then some slot else m.lookup other := by
  rw [insert, lookup_cons_eq_ite, lookup_erase]
  split <;> rfl

section Marks

def Marks (m : Memo) (name : String) : Prop := m.lookup name = some .evaluating

variable (m : Memo) (name other : String)

theorem marks_insert_evaluating :
    (m.insert name .evaluating).Marks other ↔ other = name ∨ m.Marks other := by
  by_cases h : other = name <;> simp [Marks, lookup_insert, h]

theorem marks_insert_ready (v : Value) :
    (m.insert name (.ready v)).Marks other ↔ other ≠ name ∧ m.Marks other := by
  by_cases h : other = name <;> simp [Marks, lookup_insert, h]

theorem marks_erase : (m.erase name).Marks other ↔ other ≠ name ∧ m.Marks other := by
  by_cases h : other = name <;> simp [Marks, lookup_erase, h]

end Marks

def Holds (P : String → Value → Prop) (m : Memo) : Prop :=
  ∀ name v, m.lookup name = some (.ready v) → P name v

variable {P : String → Value → Prop} {m : Memo}

theorem Holds.nil : Holds P [] := by
  intro name v h
  cases h

theorem Holds.erase (h : m.Holds P) (name : String) : Holds P (m.erase name) := by
  intro other v hv
  rw [lookup_erase] at hv
  split at hv
  · cases hv
  · exact h other v hv

theorem Holds.insert (h : m.Holds P) {name : String} {slot : Slot}
    (hslot : ∀ v, slot = .ready v → P name v) : Holds P (m.insert name slot) := by
  intro other v hv
  rw [lookup_insert] at hv
  split at hv
  · rename_i hother
    rw [hother]
    exact hslot v (Option.some.inj hv)
  · exact h other v hv

end Memo

/-- A value of the result, an error, or an end for lack of fuel, which is always allowed. -/
def Outcome.Meets (F : RuntimeError → Prop) (Q : α → Prop) : Outcome α → Prop
  | .value a => Q a
  | .error e => F e
  | .outOfFuel => True

namespace Eval

theorem slot?_bind (name : String) (k : Option Slot → Eval α) (m : Memo) :
    (slot? name >>= k) m = k (m.lookup name) m := rfl

/-- From remembered values with `P`, whatever the host answers, the evaluation ends in a value with
`Q`, in an error with `F` or for lack of fuel, and leaves remembered values with `P`. -/
def Ensures (P : String → Value → Prop) (F : RuntimeError → Prop) (Q : α → Prop)
    (x : Eval α) : Prop :=
  ∀ m : Memo, m.Holds P → (x m).Always fun r => r.1.Meets F Q ∧ r.2.Holds P

namespace Ensures

variable {P : String → Value → Prop} {F : RuntimeError → Prop} {Q : α → Prop} {R : β → Prop}

theorem pure {a : α} (h : Q a) : Ensures P F Q (Pure.pure a) := fun _ hm => ⟨h, hm⟩

theorem outOfFuel : Ensures P F Q Eval.outOfFuel := fun _ hm => ⟨trivial, hm⟩

theorem fail {fault : RuntimeFault} {pos : Position} (h : F (.fault ⟨fault, pos⟩)) :
    Ensures P F Q (Eval.fail fault pos) := fun _ hm => ⟨h, hm⟩

theorem imp {Q' : α → Prop} {x : Eval α} (hx : Ensures P F Q x) (h : ∀ a, Q a → Q' a) :
    Ensures P F Q' x := by
  intro m hm
  refine (hx m hm).imp fun r hr => ⟨?_, hr.2⟩
  obtain ⟨o, m'⟩ := r
  cases o with
  | value a => exact h a hr.1
  | error e => exact hr.1
  | outOfFuel => trivial

theorem of_forall {ι : Type} [Nonempty ι] {Q : ι → α → Prop} {x : Eval α}
    (h : ∀ i, Ensures P F (Q i) x) : Ensures P F (fun a => ∀ i, Q i a) x := by
  intro m hm
  refine (Dialogue.Always.of_forall fun i => h i m hm).imp fun r hr => ?_
  obtain ⟨i⟩ := ‹Nonempty ι›
  refine ⟨?_, (hr i).2⟩
  obtain ⟨o, m'⟩ := r
  cases o with
  | value a => exact fun i => (hr i).1
  | error e => exact (hr i).1
  | outOfFuel => trivial

theorem bind {x : Eval α} {f : α → Eval β} (hx : Ensures P F Q x)
    (hf : ∀ a, Q a → Ensures P F R (f a)) : Ensures P F R (x >>= f) := by
  intro m hm
  refine (hx m hm).bind fun r hr => ?_
  obtain ⟨o, m'⟩ := r
  cases o with
  | value a => exact hf a hr.1 m' hr.2
  | error e => exact hr
  | outOfFuel => exact ⟨trivial, hr.2⟩

theorem lift {r : Except RuntimeFault α} {pos : Position} (hok : ∀ a, r = .ok a → Q a)
    (herror : ∀ fault, r = .error fault → F (.fault ⟨fault, pos⟩)) :
    Ensures P F Q (Eval.lift r pos) := by
  cases r with
  | ok a => exact pure (hok a rfl)
  | error fault => exact fail (herror fault rfl)

theorem slot? (name : String) :
    Ensures P F (fun s => ∀ v, s = some (.ready v) → P name v) (Eval.slot? name) :=
  fun _ hm => ⟨fun v hv => hm name v hv, hm⟩

theorem print (text : String) (hF : ∀ message, F (.host message)) :
    Ensures P F (fun _ => True) (Eval.print text) := by
  intro m hm answer
  cases answer with
  | error message => exact ⟨hF message, hm⟩
  | ok => exact ⟨trivial, hm⟩

theorem readLine (hF : ∀ message, F (.host message)) :
    Ensures P F (fun _ => True) Eval.readLine := by
  intro m hm answer
  cases answer with
  | error message => exact ⟨hF message, hm⟩
  | ok line => exact ⟨trivial, hm⟩

theorem rand (bound : Int64) : Ensures P F (fun _ => True) (Eval.rand bound) :=
  fun _ hm _ => ⟨trivial, hm⟩

/-- The mark of a running computation is no value, so it needs no property. -/
theorem remember {Q : Value → Prop} {x : Eval Value} {name : String} (hx : Ensures P F Q x)
    (hQ : ∀ v, Q v → P name v) : Ensures P F Q (Eval.remember name x) := by
  intro m hm
  have hmark : (m.insert name .evaluating).Holds P := hm.insert fun v hv => by cases hv
  refine (hx _ hmark).bind fun r hr => ?_
  obtain ⟨o, m'⟩ := r
  cases o with
  | value v =>
    refine ⟨hr.1, hr.2.insert fun w hw => ?_⟩
    cases hw
    exact hQ v hr.1
  | error e => exact ⟨hr.1, hr.2.erase name⟩
  | outOfFuel => exact ⟨trivial, hr.2.erase name⟩

end Ensures

end Eval

end ExprLang

import ExprLang.Proofs.Evaluation.Cycles
import ExprLang.Proofs.Typing.Monomorphic

namespace ExprLang

variable {α β : Type}

/-- The property holds with some fuel, and with any more of it. -/
def EnoughFuel (P : Nat → Prop) : Prop := ∃ bound, ∀ fuel, bound ≤ fuel → P fuel

namespace EnoughFuel

variable {P Q : Nat → Prop}

theorem of_forall (h : ∀ n, P n) : EnoughFuel P := ⟨0, fun n _ => h n⟩

theorem imp (h : EnoughFuel P) (hPQ : ∀ n, P n → Q n) : EnoughFuel Q := by
  obtain ⟨bound, h⟩ := h
  exact ⟨bound, fun n hn => hPQ n (h n hn)⟩

theorem and (hP : EnoughFuel P) (hQ : EnoughFuel Q) : EnoughFuel fun n => P n ∧ Q n := by
  obtain ⟨boundP, hP⟩ := hP
  obtain ⟨boundQ, hQ⟩ := hQ
  exact ⟨max boundP boundQ, fun n hn => ⟨hP n (by omega), hQ n (by omega)⟩⟩

theorem step (h : EnoughFuel P) (hPQ : ∀ n, P n → Q (n + 1)) : EnoughFuel Q := by
  obtain ⟨bound, h⟩ := h
  apply Exists.intro (bound + 1)
  intro fuel hfuel
  obtain ⟨n, rfl⟩ : ∃ n, fuel = n + 1 := ⟨fuel - 1, by omega⟩
  exact hPQ n (h n (by omega))

theorem of_succ (h : ∀ n, P (n + 1)) : EnoughFuel P :=
  (of_forall fun _ => trivial).step fun n _ => h n

theorem forall_mem {ι : Type} {P : ι → Nat → Prop} {is : List ι}
    (h : ∀ i ∈ is, EnoughFuel (P i)) : EnoughFuel fun n => ∀ i ∈ is, P i n := by
  induction is with
  | nil => exact of_forall fun n => List.forall_mem_nil _
  | cons i is ih =>
    obtain ⟨hi, his⟩ := List.forall_mem_cons.1 h
    exact (hi.and (ih his)).imp fun n hn => List.forall_mem_cons.2 hn

end EnoughFuel

/-- A value with the property, or an error. -/
def Outcome.Finished (Q : α → Prop) : Outcome α → Prop
  | value a => Q a
  | error _ => True
  | outOfFuel => False

namespace Eval

/-- From remembered values with `P`, whatever the host answers, the fuel suffices: the evaluation
ends in a value with `Q` or in an error. It leaves remembered values with `P`. -/
def Finishes (P : String → Value → Prop) (Q : α → Prop) (x : Eval α) : Prop :=
  ∀ m : Memo, m.Holds P → (x m).Always fun r => r.1.Finished Q ∧ r.2.Holds P

namespace Finishes

variable {P : String → Value → Prop} {Q : α → Prop} {R : β → Prop}

theorem pure {a : α} (h : Q a) : Finishes P Q (Pure.pure a) := fun _ hm => ⟨h, hm⟩

theorem fail (fault : RuntimeFault) (pos : Position) : Finishes P Q (Eval.fail fault pos) :=
  fun _ hm => ⟨trivial, hm⟩

theorem mismatch (expected : String) (found : Value) (pos : Position) :
    Finishes P Q (Eval.mismatch expected found pos) := fail _ _

theorem imp {Q' : α → Prop} {x : Eval α} (hx : Finishes P Q x) (h : ∀ a, Q a → Q' a) :
    Finishes P Q' x := by
  intro m hm
  apply (hx m hm).imp
  rintro ⟨outcome, m'⟩ ⟨hr, hm'⟩
  cases outcome with
  | value a => exact ⟨h a hr, hm'⟩
  | error e => exact ⟨trivial, hm'⟩
  | outOfFuel => exact hr.elim

theorem bind {x : Eval α} {f : α → Eval β} (hx : Finishes P Q x)
    (hf : ∀ a, Q a → Finishes P R (f a)) : Finishes P R (x >>= f) := by
  intro m hm
  apply (hx m hm).bind
  rintro ⟨outcome, m'⟩ ⟨hr, hm'⟩
  cases outcome with
  | value a => exact hf a hr m' hm'
  | error e => exact ⟨trivial, hm'⟩
  | outOfFuel => exact hr.elim

theorem lift {r : Except RuntimeFault α} {pos : Position} (h : ∀ a, r = .ok a → Q a) :
    Finishes P Q (Eval.lift r pos) := by
  cases r with
  | ok a => exact pure (h a rfl)
  | error fault => exact fail fault pos

theorem slot? (name : String) :
    Finishes P (fun s => ∀ v, s = some (.ready v) → P name v) (Eval.slot? name) :=
  fun _ hm => ⟨fun v hv => hm name v hv, hm⟩

theorem print (text : String) : Finishes P (fun _ => True) (Eval.print text) := by
  intro m hm answer
  cases answer with
  | ok => exact ⟨trivial, hm⟩
  | error message => exact ⟨trivial, hm⟩

theorem readLine : Finishes P (fun _ => True) Eval.readLine := by
  intro m hm answer
  cases answer with
  | ok line => exact ⟨trivial, hm⟩
  | error message => exact ⟨trivial, hm⟩

theorem rand (bound : Int64) : Finishes P (fun _ => True) (Eval.rand bound) :=
  fun _ hm _ => ⟨trivial, hm⟩

theorem remember {Q : Value → Prop} {x : Eval Value} {name : String} (hx : Finishes P Q x)
    (hQ : ∀ v, Q v → P name v) : Finishes P Q (Eval.remember name x) := by
  intro m hm
  have hmark : (m.insert name .evaluating).Holds P := hm.insert fun v hv => by cases hv
  apply (hx _ hmark).bind
  rintro ⟨outcome, m'⟩ ⟨hr, hm'⟩
  cases outcome with
  | value v =>
    apply And.intro hr
    apply hm'.insert
    rintro _ ⟨⟩
    exact hQ v hr
  | error e => exact ⟨trivial, hm'.erase name⟩
  | outOfFuel => exact hr.elim

end Finishes

end Eval

namespace Program

open Eval

/-- A function whose declared type has the structure of the type, and that all of the globals lead
to. -/
def Reaches (p : Program) (gs : List String) (t : Ty) (c : Callable) : Prop :=
  (p.typeOf? c).map Ty.erase = some t.erase ∧ p.LedToFunction gs c

/-- A value that a global may have: one of its type, with functions that the global leads to. -/
def FitsGlobal (p : Program) (name : String) (v : Value) : Prop :=
  ∃ t, p.globals.lookup name = some t ∧ t.Contains (p.Reaches [name]) v

mutual

/-- The total values of the types with one structure, which the erased type stands for, with
functions that all of the globals `gs` lead to. A function is total if with enough fuel its calls
with total arguments end in total values or errors. -/
def TotalAt (p : Program) (gs : List String) : Ty → Value → Prop
  | .int, .int _ => True
  | .bool, .bool _ => True
  | .list t, .list vs => ∀ v ∈ vs, p.TotalAt gs t v
  | .tuple ts, .tuple vs => p.AllTotalAt gs ts vs
  | .fn ret params names generics, .fn c =>
    (p.typeOf? c).map Ty.erase = some (.fn ret params names generics) ∧ p.LedToFunction gs c ∧
      EnoughFuel fun n => ∀ args pos, p.AllTotalAt gs params args →
        Finishes p.FitsGlobal (fun v => p.TotalAt gs ret v) (p.call n (.fn c) args pos)
  | _, _ => False

def AllTotalAt (p : Program) (gs : List String) : List Ty → List Value → Prop
  | [], [] => True
  | t :: ts, v :: vs => p.TotalAt gs t v ∧ p.AllTotalAt gs ts vs
  | _, _ => False

end

def Total (p : Program) (gs : List String) (t : Ty) (v : Value) : Prop := p.TotalAt gs t.erase v

variable {p : Program} {gs : List String} {t : Ty} {v : Value}

theorem Total.of_erase_eq {s t : Ty} (h : s.erase = t.erase) (hv : p.Total gs t v) :
    p.Total gs s v := by
  rw [Total, h]
  exact hv

theorem Total.of_equiv (expected found : Ty) (v : Value) (h : Ty.Equiv expected found)
    (hv : p.Total gs found v) : p.Total gs expected v :=
  hv.of_erase_eq ((Ty.equiv_iff_erase_eq _ _).1 h)

theorem allTotalAt_iff (ts : List Ty) (vs : List Value) :
    p.AllTotalAt gs (Ty.eraseAll ts) vs ↔ List.Forall₂ (p.Total gs) ts vs := by
  induction ts generalizing vs with
  | nil => cases vs <;> simp [Ty.eraseAll, AllTotalAt]
  | cons t ts ih =>
    cases vs with
    | nil => simp [Ty.eraseAll, AllTotalAt]
    | cons v vs => rw [Ty.eraseAll, AllTotalAt, ih, List.forall₂_cons, Total]

theorem total_fn_iff {ret : Ty} {params : List Ty} {names generics : List String} :
    p.Total gs (.fn ret params names generics) v ↔
      ∃ c, v = .fn c ∧ p.Reaches gs (.fn ret params names generics) c ∧
        EnoughFuel fun n => ∀ args pos, List.Forall₂ (p.Total gs) params args →
          Finishes p.FitsGlobal (p.Total gs ret) (p.call n (.fn c) args pos) := by
  cases v with
  | fn c =>
    simp only [Total, Ty.erase, TotalAt, allTotalAt_iff, Reaches, Value.fn.injEq, exists_eq_left',
      and_assoc]
    rfl
  | _ => simp [Total, Ty.erase, TotalAt]

theorem total_structural : Ty.Structural (p.Total gs) where
  int_iff {v} := by cases v <;> simp [Total, Ty.erase, TotalAt]
  bool_iff {v} := by cases v <;> simp [Total, Ty.erase, TotalAt]
  list_iff {_ v} := by cases v <;> simp [Total, Ty.erase, TotalAt]
  tuple_iff {_ v} := by cases v <;> simp [Total, Ty.erase, TotalAt, allTotalAt_iff]
  fn h := (total_fn_iff.1 h).imp fun _ hc => hc.1
  generic {_ v} h := by simp [Total, Ty.erase, TotalAt] at h

theorem Total.contains (h : p.Total gs t v) : t.Contains (p.Reaches gs) v := by
  apply total_structural.imp Ty.contains_structural _ h
  intro t c hc
  cases t with
  | fn ret params names generics =>
    obtain ⟨_, ⟨⟩, hreaches, _⟩ := total_fn_iff.1 hc
    exact Ty.contains_fn_iff.2 ⟨c, rfl, hreaches⟩
  | _ => cases hc

theorem Total.inhabits (h : p.Total gs t v) : p.Inhabits t v := by
  apply Ty.contains_structural.imp Ty.contains_structural _ h.contains
  intro t c hc
  cases t with
  | fn ret params names generics =>
    obtain ⟨_, ⟨⟩, hreaches, _⟩ := Ty.contains_fn_iff.1 hc
    obtain ⟨declared, hdeclared, herase⟩ := Option.map_eq_some_iff.1 hreaches
    have hequiv := (Ty.equiv_iff_erase_eq _ _).2 herase.symm
    exact Ty.contains_fn_iff.2 ⟨c, rfl, declared, hdeclared, hequiv⟩
  | _ => cases hc

theorem total_ofCodes (codes : List Int64) : p.Total gs .string (.ofCodes codes) := by
  apply total_structural.list_iff.2 ⟨codes.map .int, rfl, _⟩
  intro v hv
  obtain ⟨n, _, rfl⟩ := List.mem_map.1 hv
  exact total_structural.int_iff.2 ⟨n, rfl⟩

theorem total_binary {op : BinaryOp} {l r : Value} (h : op.apply l r = .ok v) :
    p.Total gs op.signature.2 v := by
  rw [BinaryOp.signature_eq]
  rw [BinaryOp.apply] at h
  cases hop : op.meaning with
  | arithmetic f =>
    simp only [hop, bind_eq_ok] at h
    obtain ⟨a, _, b, _, n, _, ⟨⟩⟩ := h
    exact total_structural.int_iff.2 ⟨n, rfl⟩
  | comparison f =>
    simp only [hop, bind_eq_ok] at h
    obtain ⟨a, _, b, _, ⟨⟩⟩ := h
    exact total_structural.bool_iff.2 ⟨_, rfl⟩
  | logic f =>
    simp only [hop, bind_eq_ok] at h
    obtain ⟨a, _, b, _, ⟨⟩⟩ := h
    exact total_structural.bool_iff.2 ⟨_, rfl⟩

theorem total_unary {op : UnaryOp} {operand : Value} (h : op.apply operand = .ok v) :
    p.Total gs op.type v := by
  cases op with
  | neg =>
    simp only [UnaryOp.apply, bind_eq_ok] at h
    obtain ⟨n, _, h⟩ := h
    split at h <;> cases h
    exact total_structural.int_iff.2 ⟨_, rfl⟩
  | not =>
    simp only [UnaryOp.apply, bind_eq_ok] at h
    obtain ⟨b, _, ⟨⟩⟩ := h
    exact total_structural.bool_iff.2 ⟨_, rfl⟩

theorem builtin_finishes {P : String → Value → Prop} {b : Builtin} {ret : Ty} {params : List Ty}
    {names generics : List String} (hb : b.type = .fn ret params names generics)
    (args : List Value) (pos : Position) : Finishes P (p.Total gs ret) (b.call args pos) := by
  cases b with
  | print =>
    cases hb
    rw [Builtin.call]
    split
    · apply Finishes.bind (Q := fun _ => True) (.lift fun _ _ => trivial)
      intro text _
      apply (Finishes.print _).bind
      intro _ _
      exact .pure (total_structural.tuple_iff.2 ⟨[], rfl, .nil⟩)
    · exact .mismatch _ _ _
  | input =>
    cases hb
    apply Finishes.readLine.bind
    intro line _
    cases line with
    | some line => exact .pure (total_ofCodes _)
    | none => exact .fail _ _
  | rand =>
    cases hb
    rw [Builtin.call]
    split
    · split
      · apply (Finishes.rand _).bind
        intro n _
        exact .pure (total_structural.int_iff.2 ⟨n, rfl⟩)
      · exact .fail _ _
    · exact .mismatch _ _ _

theorem total_builtin (b : Builtin) : p.Total gs b.type (.fn (.builtin b)) := by
  cases hb : b.type with
  | fn ret params names generics =>
    have hreaches : p.Reaches gs (.fn ret params names generics) (.builtin b) := by
      rw [← hb]
      exact ⟨rfl, trivial⟩
    have hcalls : EnoughFuel fun n => ∀ args pos, List.Forall₂ (p.Total gs) params args →
        Finishes p.FitsGlobal (p.Total gs ret) (p.call n (.fn (.builtin b)) args pos) := by
      apply EnoughFuel.of_succ
      intro n args pos _
      exact builtin_finishes hb args pos
    exact total_fn_iff.2 ⟨_, rfl, hreaches, hcalls⟩
  | _ => cases b <;> cases hb

/-- All that a call can invoke. -/
def callables (p : Program) : List Callable :=
  [.builtin .print, .builtin .input, .builtin .rand] ++ p.decls.map fun d => .global d.label

theorem mem_callables {c : Callable} (h : (p.typeOf? c).isSome = true) : c ∈ p.callables := by
  cases c with
  | builtin b => cases b <;> simp [callables]
  | global label =>
    rw [typeOf?, Option.isSome_map] at h
    obtain ⟨d, hd⟩ := Option.isSome_iff_exists.1 h
    have hlabel : d.label = label := label_of_find? hd
    apply List.mem_append_right
    rw [← hlabel]
    exact List.mem_map_of_mem (mem_of_find? hd)

variable (p gs) in
/-- There are finitely many functions, so some fuel is enough for all that a type has. -/
theorem enoughFuel_call (ret : Ty) (params : List Ty) (names generics : List String) :
    EnoughFuel fun n => ∀ f args pos, p.Total gs (.fn ret params names generics) f →
      List.Forall₂ (p.Total gs) params args →
        Finishes p.FitsGlobal (p.Total gs ret) (p.call n f args pos) := by
  have hall : EnoughFuel fun n => ∀ c ∈ p.callables,
      p.Total gs (.fn ret params names generics) (.fn c) → ∀ args pos,
        List.Forall₂ (p.Total gs) params args →
          Finishes p.FitsGlobal (p.Total gs ret) (p.call n (.fn c) args pos) := by
    apply EnoughFuel.forall_mem
    intro c _
    -- A function that is not total asks for no fuel.
    by_cases hc : p.Total gs (.fn ret params names generics) (.fn c)
    · obtain ⟨_, ⟨⟩, _, hcalls⟩ := total_fn_iff.1 hc
      exact hcalls.imp fun n h _ => h
    · exact .of_forall fun n h => (hc h).elim
  apply hall.imp
  intro n h f args pos hf hargs
  obtain ⟨c, rfl, hreaches, _⟩ := total_fn_iff.1 hf
  have hmem : c ∈ p.callables := by
    apply mem_callables
    rw [← Option.isSome_map, hreaches.1]
    rfl
  exact h c hmem hf args pos hargs

theorem enoughFuel_instantiate (hp : p.Monomorphic) {scope : Scope}
    {typeArgs : Option (List TypeExpr)} {pos : Position} {ret : Ty} {params : List Ty}
    (hinst : t.instantiate scope typeArgs pos = .ok (ret, params)) :
    EnoughFuel fun n => ∀ f args pos, p.Total gs t f → List.Forall₂ (p.Total gs) params args →
      Finishes p.FitsGlobal (p.Total gs ret) (p.call n f args pos) := by
  obtain ⟨fnRet, fnParams, names, generics, rfl, _⟩ := Ty.instantiate_eq_ok hinst
  apply (enoughFuel_call p gs fnRet fnParams names generics).imp
  intro n h f args pos hf hargs
  obtain ⟨hret, hparams⟩ := hf.inhabits.erase_of_instantiate hp hinst
  have hargs : List.Forall₂ (p.Total gs) fnParams args := by
    rw [← allTotalAt_iff, Ty.eraseAll_eq_map, ← hparams, ← Ty.eraseAll_eq_map, allTotalAt_iff]
    exact hargs
  exact (h f args pos hf hargs).imp fun v => .of_erase_eq hret

end Program

end ExprLang

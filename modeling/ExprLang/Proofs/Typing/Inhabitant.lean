import ExprLang.Proofs.Ty.Structure
import ExprLang.Value
import Mathlib.Data.List.Forall2

namespace ExprLang.Ty

mutual

/-- A list has its elements in the element type, a tuple each item in its own type, and a function
is one that the choice gives to the type. Nothing is a value of a generic. -/
def Contains (functions : Ty → Callable → Prop) : Ty → Value → Prop
  | int, .int _ => True
  | bool, .bool _ => True
  | list t, .list vs => ∀ v ∈ vs, t.Contains functions v
  | tuple ts, .tuple vs => ContainsAll functions ts vs
  | fn ret params names generics, .fn c => functions (fn ret params names generics) c
  | _, _ => False

def ContainsAll (functions : Ty → Callable → Prop) : List Ty → List Value → Prop
  | [], [] => True
  | t :: ts, v :: vs => t.Contains functions v ∧ ContainsAll functions ts vs
  | _, _ => False

end

variable {functions : Ty → Callable → Prop} {v : Value}

theorem containsAll_iff (ts : List Ty) (vs : List Value) :
    ContainsAll functions ts vs ↔ List.Forall₂ (Contains functions) ts vs := by
  induction ts generalizing vs with
  | nil => cases vs <;> simp [ContainsAll]
  | cons t ts ih =>
    cases vs with
    | nil => simp [ContainsAll]
    | cons v vs => rw [ContainsAll, ih, List.forall₂_cons]

theorem contains_int_iff : int.Contains functions v ↔ ∃ n, v = .int n := by
  cases v <;> simp [Contains]

theorem contains_bool_iff : bool.Contains functions v ↔ ∃ b, v = .bool b := by
  cases v <;> simp [Contains]

theorem contains_list_iff {t : Ty} :
    (list t).Contains functions v ↔ ∃ vs, v = .list vs ∧ ∀ x ∈ vs, t.Contains functions x := by
  cases v <;> simp [Contains]

theorem contains_tuple_iff {ts : List Ty} :
    (tuple ts).Contains functions v ↔
      ∃ vs, v = .tuple vs ∧ List.Forall₂ (Contains functions) ts vs := by
  cases v <;> simp [Contains, containsAll_iff]

theorem contains_fn_iff {ret : Ty} {params : List Ty} {names generics : List String} :
    (fn ret params names generics).Contains functions v ↔
      ∃ c, v = .fn c ∧ functions (fn ret params names generics) c := by
  cases v <;> simp [Contains]

theorem forall₂_contains_of_eraseAll_eq {ss ts : List Ty} {vs : List Value}
    (hss : ∀ s ∈ ss, ∀ (t : Ty) v, s.erase = t.erase → t.Contains functions v →
      s.Contains functions v)
    (h : eraseAll ss = eraseAll ts) (hvs : List.Forall₂ (Contains functions) ts vs) :
    List.Forall₂ (Contains functions) ss vs := by
  induction hvs generalizing ss with
  | nil =>
    cases ss with
    | nil => exact .nil
    | cons s ss => cases h
  | cons hv _ ih =>
    cases ss with
    | nil => cases h
    | cons s ss =>
      simp only [eraseAll, List.cons.injEq] at h
      obtain ⟨hs, hss⟩ := List.forall_mem_cons.1 hss
      exact .cons (hs _ _ h.1 hv) (ih hss h.2)

theorem Contains.of_erase_eq
    (hfunctions : ∀ s t c, s.erase = t.erase → functions t c → functions s c) {s t : Ty}
    (h : s.erase = t.erase) (hv : t.Contains functions v) : s.Contains functions v := by
  induction s using Ty.induction generalizing t v with
  | bool => cases t <;> cases h; exact hv
  | int => cases t <;> cases h; exact hv
  | generic a => cases t <;> cases h; exact hv
  | list s ih =>
    cases t with
    | list t =>
      simp only [erase, list.injEq] at h
      obtain ⟨vs, rfl, hvs⟩ := contains_list_iff.1 hv
      exact contains_list_iff.2 ⟨vs, rfl, fun x hx => ih h (hvs x hx)⟩
    | _ => cases h
  | tuple ss ih =>
    cases t with
    | tuple ts =>
      simp only [erase, tuple.injEq] at h
      obtain ⟨vs, rfl, hvs⟩ := contains_tuple_iff.1 hv
      have hvs := forall₂_contains_of_eraseAll_eq (fun s hs _ _ => ih s hs) h hvs
      exact contains_tuple_iff.2 ⟨vs, rfl, hvs⟩
    | _ => cases h
  | fn ret params names generics =>
    cases t with
    | fn ret' params' names' generics' =>
      obtain ⟨c, rfl, hc⟩ := contains_fn_iff.1 hv
      exact contains_fn_iff.2 ⟨c, rfl, hfunctions _ _ c h hc⟩
    | _ => cases h

/-- Values are given to types by the structure of both, whatever functions a function type has. -/
structure Structural (R : Ty → Value → Prop) : Prop where
  int_iff : ∀ {v}, R .int v ↔ ∃ n, v = .int n
  bool_iff : ∀ {v}, R .bool v ↔ ∃ b, v = .bool b
  list_iff : ∀ {t v}, R (.list t) v ↔ ∃ vs, v = .list vs ∧ ∀ x ∈ vs, R t x
  tuple_iff : ∀ {ts v}, R (.tuple ts) v ↔ ∃ vs, v = .tuple vs ∧ List.Forall₂ R ts vs
  fn : ∀ {ret params names generics v}, R (.fn ret params names generics) v → ∃ c, v = .fn c
  generic : ∀ {a v}, ¬ R (.generic a) v

theorem contains_structural : Structural (Contains functions) where
  int_iff := contains_int_iff
  bool_iff := contains_bool_iff
  list_iff := contains_list_iff
  tuple_iff := contains_tuple_iff
  fn h := (contains_fn_iff.1 h).imp fun _ hc => hc.1
  generic h := by simp [Contains] at h

/-- Two such choices of values are told apart by functions. -/
theorem Structural.imp {R S : Ty → Value → Prop} (hR : Structural R) (hS : Structural S)
    (h : ∀ t c, R t (.fn c) → S t (.fn c)) {t : Ty} (hv : R t v) : S t v := by
  induction t using Ty.induction generalizing v with
  | bool => exact hS.bool_iff.2 (hR.bool_iff.1 hv)
  | int => exact hS.int_iff.2 (hR.int_iff.1 hv)
  | generic a => exact (hR.generic hv).elim
  | list t ih =>
    obtain ⟨vs, rfl, hvs⟩ := hR.list_iff.1 hv
    exact hS.list_iff.2 ⟨vs, rfl, fun x hx => ih (hvs x hx)⟩
  | tuple ts ih =>
    obtain ⟨vs, rfl, hvs⟩ := hR.tuple_iff.1 hv
    have ih : ∀ t ∈ ts, ∀ v, R t v → S t v := fun t ht v => ih t ht
    have hvs := ((List.forall₂_and_left ts vs).2 ⟨ih, hvs⟩).imp fun t v ⟨ih, hv⟩ => ih v hv
    exact hS.tuple_iff.2 ⟨vs, rfl, hvs⟩
  | fn ret params names generics =>
    obtain ⟨c, rfl⟩ := hR.fn hv
    exact h _ c hv

end ExprLang.Ty

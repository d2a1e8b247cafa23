import ExprLang.Proofs.Typing.Checked
import ExprLang.Proofs.Typing.Inhabitant

namespace ExprLang

namespace TypeExpr

mutual

/-- Whether some function type in a written type declares generics. -/
def declaresGenerics : TypeExpr → Bool
  | int _ | bool _ | generic _ _ => false
  | list _ element => element.declaresGenerics
  | tuple _ items => anyDeclaresGenerics items
  | fn _ generics params ret =>
    !generics.isEmpty || paramsDeclareGenerics params || ret.declaresGenerics

def anyDeclaresGenerics : List TypeExpr → Bool
  | [] => false
  | t :: ts => t.declaresGenerics || anyDeclaresGenerics ts

def paramsDeclareGenerics : List (Name × TypeExpr) → Bool
  | [] => false
  | (_, t) :: params => t.declaresGenerics || paramsDeclareGenerics params

end

mutual

theorem resolve_ground : (written : TypeExpr) → written.declaresGenerics = false → {t : Ty} →
    written.resolve [] = .ok t → t.Ground
  | int _, _, _, h => by
    cases h
    trivial
  | bool _, _, _, h => by
    cases h
    trivial
  | generic _ _, _, _, h => nomatch h
  | list _ element, hnone, _, h => by
    simp only [resolve, bind_eq_ok] at h
    obtain ⟨t, ht, h⟩ := h
    cases h
    have helement : element.declaresGenerics = false := hnone
    exact (resolve_ground element helement ht : t.Ground)
  | tuple _ items, hnone, _, h => by
    simp only [resolve, bind_eq_ok] at h
    obtain ⟨ts, hts, h⟩ := h
    cases h
    exact resolveAll_ground items hnone hts
  | fn _ generics params ret, hnone, _, h => by
    simp only [declaresGenerics, Bool.or_eq_false_iff, Bool.not_eq_false',
      List.isEmpty_iff] at hnone
    obtain ⟨⟨rfl, hparams⟩, hret⟩ := hnone
    simp only [resolve, declareGenerics, bind_eq_ok] at h
    obtain ⟨inner, hinner, ps, hps, r, hr, h⟩ := h
    cases hinner
    cases h
    exact ⟨resolve_ground ret hret hr, resolveParams_ground params hparams hps⟩

theorem resolveAll_ground : (items : List TypeExpr) → anyDeclaresGenerics items = false →
    {ts : List Ty} → resolveAll [] items = .ok ts → Ty.AllGround ts
  | [], _, _, h => by
    cases h
    trivial
  | item :: items, hnone, _, h => by
    obtain ⟨hitem, hitems⟩ := Bool.or_eq_false_iff.1 hnone
    simp only [resolveAll, bind_eq_ok] at h
    obtain ⟨t, ht, ts, hts, h⟩ := h
    cases h
    exact ⟨resolve_ground item hitem ht, resolveAll_ground items hitems hts⟩

theorem resolveParams_ground : (params : List (Name × TypeExpr)) →
    paramsDeclareGenerics params = false → {ts : List Ty} →
    resolveParams [] params = .ok ts → Ty.AllGround ts
  | [], _, _, h => by
    cases h
    trivial
  | (_, param) :: params, hnone, _, h => by
    obtain ⟨hparam, hparams⟩ := Bool.or_eq_false_iff.1 hnone
    simp only [resolveParams, bind_eq_ok] at h
    obtain ⟨t, ht, ts, hts, h⟩ := h
    cases h
    exact ⟨resolve_ground param hparam ht, resolveParams_ground params hparams hts⟩

end

end TypeExpr

namespace Program

/-- Inhabitants of a type: a function is one whose declared type equals the type. -/
def Inhabits (p : Program) (t : Ty) (v : Value) : Prop :=
  t.Contains (fun u c => ∃ declared, p.typeOf? c = some declared ∧ u.equiv declared = true) v

def MemoInhabits (p : Program) (m : Memo) : Prop :=
  m.Holds fun name v => ∃ t, p.globals.lookup name = some t ∧ p.Inhabits t v

def EnvInhabits (p : Program) (locals : TypeTable) (env : Env) : Prop :=
  ∀ name, Option.Rel p.Inhabits (locals.lookup name) (env.lookup name)

variable {p : Program}

theorem Inhabits.of_erase_eq {s t : Ty} {v : Value} (h : s.erase = t.erase)
    (hv : p.Inhabits t v) : p.Inhabits s v := by
  refine Ty.Contains.of_erase_eq (fun s t c hst hc => ?_) h hv
  obtain ⟨declared, hdeclared, ht⟩ := hc
  rw [Ty.equiv_iff_erase_eq] at ht
  exact ⟨declared, hdeclared, (Ty.equiv_iff_erase_eq _ _).2 (hst.trans ht)⟩

theorem accepts_of_erase_eq {c : Callable} {ret : Ty} {params : List Ty}
    {names generics : List String} (hc : p.typeOf? c = some (.fn ret params names generics))
    {ret' : Ty} {params' : List Ty} (hret : ret'.erase = ret.erase)
    (hparams : params'.map Ty.erase = params.map Ty.erase) {args : List Value}
    (hargs : List.Forall₂ p.Inhabits params' args) :
    p.Accepts (fun _ : Unit => p.Inhabits) (.fn c) args (p.Inhabits ret') := by
  refine ⟨c, ret, params, names, generics, (), rfl, hc, ?_, fun v => .of_erase_eq hret⟩
  have hparams : Ty.eraseAll params = Ty.eraseAll params' := by
    rw [Ty.eraseAll_eq_map, Ty.eraseAll_eq_map, hparams]
  exact Ty.forall₂_contains_of_eraseAll_eq (fun _ _ _ _ => Inhabits.of_erase_eq) hparams hargs

/-- All that a call can invoke has a declared type without generics. -/
def Monomorphic (p : Program) : Prop := ∀ c t, p.typeOf? c = some t → t.Ground

theorem Inhabits.ground {ret : Ty} {params : List Ty} {names generics : List String} {f : Value}
    (hp : p.Monomorphic) (hf : p.Inhabits (.fn ret params names generics) f) :
    ∃ c declRet declParams declNames declGenerics, f = .fn c ∧
      p.typeOf? c = some (.fn declRet declParams declNames declGenerics) ∧
      ret.erase = declRet.erase ∧ params.map Ty.erase = declParams.map Ty.erase ∧
      ret.Ground ∧ ∀ t ∈ params, t.Ground := by
  obtain ⟨c, rfl, declared, hdeclared, hequiv⟩ := Ty.contains_fn_iff.1 hf
  have hground : (Ty.fn ret params names generics).Ground :=
    (hp c declared hdeclared).of_equiv (Ty.equiv_symm hequiv)
  cases declared with
  | fn declRet declParams declNames declGenerics =>
    have herase := (Ty.equiv_iff_erase_eq _ _).1 hequiv
    simp only [Ty.erase, Ty.eraseAll_eq_map, Ty.fn.injEq] at herase
    exact ⟨c, declRet, declParams, declNames, declGenerics, rfl, hdeclared, herase.1,
      herase.2.1, hground.1, (Ty.allGround_iff params).1 hground.2⟩
  | _ => simp [Ty.equiv] at hequiv

/-- What is called has no generics, so that a substitution does not change it. -/
theorem Inhabits.erase_of_instantiate (hp : p.Monomorphic) {scope : Scope} {fnRet : Ty}
    {fnParams : List Ty} {names generics : List String} {typeArgs : Option (List TypeExpr)}
    {pos : Position} {ret : Ty} {params : List Ty} {f : Value}
    (hinst : (Ty.fn fnRet fnParams names generics).instantiate scope typeArgs pos =
      .ok (ret, params))
    (hf : p.Inhabits (.fn fnRet fnParams names generics) f) :
    ret.erase = fnRet.erase ∧ params.map Ty.erase = fnParams.map Ty.erase := by
  obtain ⟨_, _, _, _, _, _, _, _, _, hground, hgrounds⟩ := hf.ground hp
  obtain ⟨_, _, _, _, hfn, hparts⟩ := Ty.instantiate_eq_ok hinst
  cases hfn
  rcases hparts with ⟨_, rfl, rfl⟩ | ⟨_, resolved, _, _, _, _, rfl, rfl⟩
  · exact ⟨rfl, rfl⟩
  · constructor
    · exact Substitution.apply_erase _ hground
    · rw [List.map_map]
      exact List.map_congr_left fun t ht => Substitution.apply_erase _ (hgrounds t ht)

theorem accepts_of_instantiate (hp : p.Monomorphic) {scope : Scope} {t : Ty}
    {typeArgs : Option (List TypeExpr)} {pos : Position} {ret : Ty} {params : List Ty} {f : Value}
    {args : List Value} (hinst : t.instantiate scope typeArgs pos = .ok (ret, params))
    (hf : p.Inhabits t f) (hargs : List.Forall₂ p.Inhabits params args) :
    p.Accepts (fun _ : Unit => p.Inhabits) f args (p.Inhabits ret) := by
  obtain ⟨_, _, _, _, rfl, _⟩ := Ty.instantiate_eq_ok hinst
  obtain ⟨hret, hparams⟩ := hf.erase_of_instantiate hp hinst
  obtain ⟨c, _, _, _, _, rfl, hc, hdeclRet, hdeclParams, _⟩ := hf.ground hp
  exact accepts_of_erase_eq hc (hret.trans hdeclRet) (hparams.trans hdeclParams) hargs

def inhabitants (hp : p.Monomorphic)
    (htable : ∀ name t, p.globals.lookup name = some t → p.typeOf? (.ofName name) = some t) :
    TypeModel p .any where
  World := Unit
  Member _ := p.Inhabits
  int_iff := Ty.contains_int_iff
  bool_iff := Ty.contains_bool_iff
  list_iff := Ty.contains_list_iff
  tuple_iff := Ty.contains_tuple_iff
  subsume h hv := .of_erase_eq ((Ty.equiv_iff_erase_eq _ _).1 h) hv
  function {_ name _ _ _ _} h :=
    Ty.contains_fn_iff.2 ⟨_, rfl, _, htable name _ h, (Ty.equiv_iff_erase_eq _ _).2 rfl⟩
  invoke hinst hf hargs := accepts_of_instantiate hp hinst hf hargs
  specialize _ hinst hf hargs := accepts_of_instantiate hp hinst (hf ()) hargs
  named _ := .inl inferInstance

theorem check_monomorphic {ds : List Decl} (h : check ds = .ok p)
    (hmono : ∀ d ∈ ds, d.signature.declaresGenerics = false) : p.Monomorphic := by
  intro c t hc
  cases c with
  | builtin b =>
    cases hc
    cases b <;> simp [Builtin.type, Ty.Ground, Ty.AllGround, Ty.unit, Ty.string]
  | global label =>
    obtain ⟨d', hd', rfl⟩ := Option.map_eq_some_iff.1 hc
    obtain ⟨d, hd, hresolve, _⟩ := exists_checksTo h (mem_of_find? hd')
    exact d.signature.resolve_ground (hmono d hd) hresolve

/-- Preservation without generics: an expression of an inferred type evaluates to an inhabitant of
it, and keeps remembered values inhabitants of the types of their globals; no error is a type fault.
-/
theorem eval_inhabits {ds : List Decl} (hcheck : check ds = .ok p)
    (hmono : ∀ d ∈ ds, d.signature.declaresGenerics = false) {scope : Scope}
    (hscope : scope.globals = p.globals) {e : Expr} {t : Ty} (he : e.infer scope = .ok t)
    {env : Env} (henv : p.EnvInhabits scope.locals env) {m : Memo} (hm : p.MemoInhabits m)
    (fuel : Nat) :
    (p.eval fuel env e m).Always fun (outcome, m') =>
      p.MemoInhabits m' ∧ (∀ v, outcome = .value v → p.Inhabits t v) ∧
        ∀ error, outcome = .error error → ¬ error.IsTypeFault := by
  have htyped := check_typedBy hcheck
  let M := inhabitants (check_monomorphic hcheck hmono) htyped.table
  have hmemo (m : Memo) : m.Holds M.Remembers ↔ p.MemoInhabits m := by
    simp only [Memo.Holds, MemoInhabits, TypeModel.Remembers, M, inhabitants, forall_const]
  have henv : M.EnvFits () scope.locals env := henv
  have hsafe : M.Safe (p.Inhabits t) (p.eval fuel env e) :=
    (M.safeAt htyped fuel).eval hscope (Expr.infer_eq_ok_iff.1 he) henv
  refine (hsafe m ((hmemo m).2 hm)).imp fun (outcome, m') ⟨hmeets, hholds⟩ => ?_
  refine ⟨(hmemo m').1 hholds, ?_, ?_⟩
  · rintro v rfl
    exact hmeets
  · rintro error rfl
    exact hmeets

/-- `double(n: Int): Int = n + n` and `main(args: [[Int]]): Int = let f <- double in f(21)` -/
def doubling : List Decl :=
  [⟨"double", .start, .fn .start [] [(⟨"n", .start⟩, .int .start)] (.int .start),
      .binary .start .add (.ident .start "n") (.ident .start "n")⟩,
    ⟨"main", .start,
      .fn .start [] [(⟨"args", .start⟩, .list .start (.list .start (.int .start)))] (.int .start),
      .letName .start ⟨"f", .start⟩ (.ident .start "double")
        (.call .start (.ident .start "f") none [.int .start 21])⟩]

def doublingProgram : Program where
  globals := Builtin.table ++ [("double", .fn .int [.int] ["n"] []), ("main", mainType)]
  decls :=
    [⟨"double", .start, .fn .int [.int] ["n"] [],
        .binary .start .add (.ident .start "n") (.ident .start "n")⟩,
      ⟨"main", .start, mainType,
        .letName .start ⟨"f", .start⟩ (.ident .start "double")
          (.call .start (.ident .start "f") none [.int .start 21])⟩]

/-- The call in `main`, where the local name stands for the other function. -/
theorem eval_inhabits_doubling :
    check doubling = .ok doublingProgram ∧
      (doublingProgram.eval 4 [("f", .fn (.global "double"))]
        (.call .start (.ident .start "f") none [.int .start 21]) []).Always fun (outcome, m) =>
          doublingProgram.MemoInhabits m ∧
            (∀ v, outcome = .value v → doublingProgram.Inhabits .int v) ∧
              ∀ error, outcome = .error error → ¬ error.IsTypeFault := by
  have hcheck : check doubling = .ok doublingProgram := rfl
  let scope : Scope := ⟨doublingProgram.globals, [("f", .fn .int [.int] ["n"] [])], []⟩
  have hinfer : Expr.infer scope (.call .start (.ident .start "f") none [.int .start 21]) =
    .ok .int := rfl
  have henv : doublingProgram.EnvInhabits scope.locals [("f", .fn (.global "double"))] := by
    intro name
    rw [lookup_cons_eq_ite, lookup_cons_eq_ite]
    split
    · exact .some (Ty.contains_fn_iff.2 ⟨_, rfl, _, rfl, rfl⟩)
    · exact .none
  exact ⟨hcheck, eval_inhabits hcheck (by decide) rfl hinfer henv Memo.Holds.nil 4⟩

end Program

end ExprLang

import ExprLang.Proofs.Places.Move

namespace ExprLang

variable {φ : Position → Position}

/-- The checker gives `y` where it gave `x`, mapped and with the place of its error moved. -/
def Typing.Mirrors {α β : Type} (φ : Position → Position) (f : α → β)
    (x : Except TypingError α) (y : Except TypingError β) : Prop :=
  y =
    match x with
    | .ok a => .ok (f a)
    | .error e => .error (e.move φ)

namespace Typing.Mirrors

variable {α β γ δ : Type} {f : α → γ} {g : β → δ}

theorem ok (f : α → γ) (a : α) : Mirrors φ f (.ok a) (.ok (f a)) := rfl

theorem error (fault : TypingFault) (pos : Position) :
    Mirrors φ f (.error ⟨fault, pos⟩) (.error ⟨fault, φ pos⟩) := rfl

theorem bind {x : Except TypingError α} {y : Except TypingError γ}
    {k : α → Except TypingError β} {k' : γ → Except TypingError δ} (hx : Mirrors φ f x y)
    (hk : ∀ a, Mirrors φ g (k a) (k' (f a))) : Mirrors φ g (x >>= k) (y >>= k') := by
  cases hx
  cases x with
  | ok a => exact hk a
  | error e => rfl

theorem ite {c : Prop} [Decidable c] {x x' : Except TypingError α} {y y' : Except TypingError γ}
    (hyes : Mirrors φ f x y) (hno : Mirrors φ f x' y') :
    Mirrors φ f (if c then x else x') (if c then y else y') := by
  split
  · exact hyes
  · exact hno

end Typing.Mirrors

open Typing

namespace Scope

theorem bind_mirrors (scope : Scope) (name : Name) (t : Ty) :
    Mirrors φ id (scope.bind name t) (scope.bind (name.move φ) t) :=
  .ite (.error _ _) (.ite (.error _ _) (.ok id _))

theorem bindAll_mirrors (scope : Scope) (names : List Name) (ts : List Ty) :
    Mirrors φ id (scope.bindAll names ts) (scope.bindAll (names.map (Name.move φ)) ts) := by
  induction names generalizing scope ts with
  | nil => exact .ok id scope
  | cons name names ih =>
    cases ts with
    | nil => exact .ok id scope
    | cons t ts => exact (bind_mirrors scope name t).bind fun inner => ih inner ts

end Scope

namespace TypeExpr

theorem declareGenerics_mirrors (allowed : List String) (names : List Name) :
    Mirrors φ id (declareGenerics allowed names)
      (declareGenerics allowed (names.map (Name.move φ))) := by
  induction names generalizing allowed with
  | nil => exact .ok id allowed
  | cons g gs ih =>
    rw [List.map_cons, declareGenerics, declareGenerics]
    exact .ite (.error _ _) (ih _)

theorem paramNames_moveParams (params : List (Name × TypeExpr)) :
    (moveParams φ params).map (fun param => param.1.text) =
      params.map fun param => param.1.text := by
  rw [moveParams_eq_map, List.map_map]
  rfl

mutual

theorem resolve_mirrors (allowed : List String) : (t : TypeExpr) →
    Mirrors φ id (t.resolve allowed) ((t.move φ).resolve allowed)
  | int _ => .ok id _
  | bool _ => .ok id _
  | list _ element => (resolve_mirrors allowed element).bind fun t => .ok id (Ty.list t)
  | tuple _ items => (resolveAll_mirrors allowed items).bind fun ts => .ok id (Ty.tuple ts)
  | generic pos name => by
    rw [move, resolve, resolve]
    exact .ite (.ok id _) (.error _ pos)
  | fn _ generics params ret => by
    rw [move, resolve, resolve, paramNames_moveParams, map_text_move]
    refine (declareGenerics_mirrors allowed generics).bind fun inner => ?_
    refine (resolveParams_mirrors inner params).bind fun ps => ?_
    exact (resolve_mirrors inner ret).bind fun r => .ok id _

theorem resolveAll_mirrors (allowed : List String) : (ts : List TypeExpr) →
    Mirrors φ id (resolveAll allowed ts) (resolveAll allowed (moveAll φ ts))
  | [] => .ok id []
  | t :: ts =>
    (resolve_mirrors allowed t).bind fun t =>
      (resolveAll_mirrors allowed ts).bind fun ts => .ok id (t :: ts)

theorem resolveParams_mirrors (allowed : List String) : (params : List (Name × TypeExpr)) →
    Mirrors φ id (resolveParams allowed params) (resolveParams allowed (moveParams φ params))
  | [] => .ok id []
  | (_, t) :: params =>
    (resolve_mirrors allowed t).bind fun t =>
      (resolveParams_mirrors allowed params).bind fun ts => .ok id (t :: ts)

end

end TypeExpr

namespace Ty

theorem demand_mirrors (expected found : Ty) (pos : Position) :
    Mirrors φ id (demand expected found pos) (demand expected found (φ pos)) :=
  .ite (.ok id ()) (.error _ _)

theorem instantiate_mirrors (scope : Scope) (callee : Ty) (typeArgs : Option (List TypeExpr))
    (pos : Position) :
    Mirrors φ id (instantiate scope callee typeArgs pos)
      (instantiate scope callee (typeArgs.map (TypeExpr.moveAll φ)) (φ pos)) := by
  cases callee with
  | fn ret params names generics =>
    unfold instantiate
    dsimp only
    cases generics.isEmpty with
    | true =>
      cases typeArgs with
      | none => exact .ok id _
      | some _ => exact .error _ _
    | false =>
      cases typeArgs with
      | none => exact .error _ _
      | some args =>
        have hlength : (TypeExpr.moveAll φ args).length = args.length := by
          rw [TypeExpr.moveAll_eq_map, List.length_map]
        dsimp only [Option.map]
        rw [hlength]
        refine .ite ?_ (.error _ _)
        exact (TypeExpr.resolveAll_mirrors _ args).bind fun resolved => .ok id _
  | bool | int | list | tuple | generic => exact .error _ pos

end Ty

namespace Expr

mutual

theorem infer_mirrors (scope : Scope) : (e : Expr) →
    Mirrors φ id (e.infer scope) ((e.move φ).infer scope)
  | int _ _ => .ok id _
  | bool _ _ => .ok id _
  | str _ _ => .ok id _
  | ident pos name => by
    rw [move, infer, infer]
    split
    · exact .ok id _
    · exact .error _ pos
  | list pos [] => .error _ pos
  | list _ (first :: rest) =>
    (infer_mirrors scope first).bind fun t =>
      (checkAll_mirrors scope t rest).bind fun _ => .ok id (Ty.list t)
  | emptyOf _ element =>
    (TypeExpr.resolve_mirrors scope.generics element).bind fun t => .ok id (Ty.list t)
  | tuple _ items => (inferAll_mirrors scope items).bind fun ts => .ok id (Ty.tuple ts)
  | call pos callee typeArgs args => by
    rw [move, infer, infer, pos_move, length_moveAll]
    refine (infer_mirrors scope callee).bind fun t => ?_
    refine (Ty.instantiate_mirrors scope t typeArgs callee.pos).bind fun (ret, params) => ?_
    refine .ite ?_ (.error _ pos)
    exact (checkArgs_mirrors scope params args).bind fun _ => .ok id ret
  | cond _ test yes no => by
    rw [move, infer, infer, pos_move, pos_move]
    refine (infer_mirrors scope test).bind fun t => ?_
    refine (Ty.demand_mirrors .bool t test.pos).bind fun _ => ?_
    refine (infer_mirrors scope yes).bind fun yesTy => ?_
    exact (infer_mirrors scope no).bind fun noTy => .ite (.ok id _) (.error _ no.pos)
  | unpack _ head tail whole yes no => by
    rw [move, infer, infer, pos_move, pos_move]
    refine (infer_mirrors scope whole).bind fun t => ?_
    cases t with
    | list element =>
      refine (scope.bind_mirrors head element).bind fun scope₁ => ?_
      refine (scope₁.bind_mirrors tail _).bind fun scope₂ => ?_
      refine (infer_mirrors scope₂ yes).bind fun yesTy => ?_
      exact (infer_mirrors scope no).bind fun noTy => .ite (.ok id _) (.error _ no.pos)
    | bool | int | tuple | generic | fn => exact .error _ whole.pos
  | letName _ name value body => by
    rw [move, infer, infer]
    refine (infer_mirrors scope value).bind fun t => ?_
    exact (scope.bind_mirrors name t).bind fun inner => infer_mirrors inner body
  | letTuple _ names value body => by
    rw [move, infer, infer, pos_move, List.length_map]
    refine (infer_mirrors scope value).bind fun t => ?_
    cases t with
    | tuple ts =>
      refine .ite ?_ (.error _ value.pos)
      exact (scope.bindAll_mirrors names ts).bind fun inner => infer_mirrors inner body
    | bool | int | list | generic | fn => exact .error _ value.pos
  | cons _ head tail => by
    rw [move, infer, infer, pos_move, pos_move]
    refine (infer_mirrors scope tail).bind fun t => ?_
    cases t with
    | list element =>
      refine (infer_mirrors scope head).bind fun h => ?_
      exact (Ty.demand_mirrors element h head.pos).bind fun _ => .ok id (Ty.list element)
    | bool | int | tuple | generic | fn => exact .error _ tail.pos
  | binary _ op left right => by
    rw [move, infer, infer, pos_move, pos_move]
    refine (infer_mirrors scope left).bind fun l => ?_
    refine (Ty.demand_mirrors _ l left.pos).bind fun _ => ?_
    refine (infer_mirrors scope right).bind fun r => ?_
    exact (Ty.demand_mirrors _ r right.pos).bind fun _ => .ok id _
  | unary _ op operand => by
    rw [move, infer, infer, pos_move]
    refine (infer_mirrors scope operand).bind fun t => ?_
    exact (Ty.demand_mirrors _ t operand.pos).bind fun _ => .ok id _

theorem inferAll_mirrors (scope : Scope) : (es : List Expr) →
    Mirrors φ id (inferAll scope es) (inferAll scope (moveAll φ es))
  | [] => .ok id []
  | e :: es =>
    (infer_mirrors scope e).bind fun t =>
      (inferAll_mirrors scope es).bind fun ts => .ok id (t :: ts)

theorem checkAll_mirrors (scope : Scope) (expected : Ty) : (es : List Expr) →
    Mirrors φ id (checkAll scope expected es) (checkAll scope expected (moveAll φ es))
  | [] => .ok id ()
  | e :: es => by
    rw [moveAll, checkAll, checkAll, pos_move]
    refine (infer_mirrors scope e).bind fun t => ?_
    exact (Ty.demand_mirrors expected t e.pos).bind fun _ => checkAll_mirrors scope expected es

theorem checkArgs_mirrors (scope : Scope) : (params : List Ty) → (es : List Expr) →
    Mirrors φ id (checkArgs scope params es) (checkArgs scope params (moveAll φ es))
  | [], [] => .ok id ()
  | [], _ :: _ => .ok id ()
  | _ :: _, [] => .ok id ()
  | param :: params, e :: es => by
    rw [moveAll, checkArgs, checkArgs, pos_move]
    refine (infer_mirrors scope e).bind fun t => ?_
    exact (Ty.demand_mirrors param t e.pos).bind fun _ => checkArgs_mirrors scope params es

end

theorem check_mirrors (scope : Scope) (expected : Ty) (e : Expr) :
    Mirrors φ id (e.check scope expected) ((e.move φ).check scope expected) := by
  rw [check, check, pos_move]
  exact (infer_mirrors scope e).bind fun t => Ty.demand_mirrors expected t e.pos

end Expr

namespace Program

theorem declare_mirrors (table : TypeTable) (ds : List Decl) :
    Mirrors φ id (declare table ds) (declare table (ds.map (Decl.move φ))) := by
  induction ds generalizing table with
  | nil => exact .ok id (table, [])
  | cons d ds ih =>
    rw [List.map_cons, declare, declare]
    refine (TypeExpr.resolve_mirrors [] d.signature).bind fun t => ?_
    refine .ite (.error _ d.pos) ?_
    exact (ih _).bind fun r => .ok id (r.1, t :: r.2)

theorem checkMain_mirrors {ds : List Decl} (hds : ds ≠ []) (ts : List Ty) :
    Mirrors φ id (checkMain ds ts) (checkMain (ds.map (Decl.move φ)) ts) := by
  obtain ⟨last, hlast⟩ := Option.isSome_iff_exists.1 (List.getLast?_isSome.2 hds)
  have hfind : findMain? ((ds.map (Decl.move φ)).zip ts) =
      (findMain? (ds.zip ts)).map (Prod.map (Decl.move φ) id) := by
    rw [List.zip_map_left, findMain?, List.find?_map]
    rfl
  rw [checkMain, checkMain, hfind, List.getLast?_map, hlast]
  cases findMain? (ds.zip ts) with
  | none =>
    have hpos : (last.move φ).body.pos = φ last.body.pos := Expr.pos_move φ last.body
    dsimp only [Option.map, Option.getD]
    rw [hpos]
    exact .error _ _
  | some entry =>
    obtain ⟨d, t⟩ := entry
    exact .ite (.error _ d.pos) (.ok id ())

theorem checkBody_mirrors (globals : TypeTable) (d : Decl) (t : Ty) :
    Mirrors φ id (checkBody globals d t) (checkBody globals (d.move φ) t) := by
  obtain ⟨label, pos, signature, body⟩ := d
  have hvalue := Expr.check_mirrors (φ := φ) ⟨globals, [], []⟩ t body
  cases signature with
  | fn _ generics params ret =>
    cases t with
    | fn retTy paramTys names declared =>
      have hnames : (TypeExpr.moveParams φ params).map Prod.fst =
          (params.map Prod.fst).map (Name.move φ) := by
        rw [TypeExpr.moveParams_eq_map, List.map_map, List.map_map]
        rfl
      have hbind := Scope.bindAll_mirrors (φ := φ) ⟨globals, [], declared⟩ (params.map Prod.fst)
        paramTys
      rw [← hnames] at hbind
      exact hbind.bind fun scope => Expr.check_mirrors scope retTy body
    | bool | int | list | tuple | generic => exact hvalue
  | int | bool | list | tuple | generic => exact hvalue

theorem checkBodies_mirrors (globals : TypeTable) (ds : List Decl) (ts : List Ty) :
    Mirrors φ (List.map (CheckedDecl.move φ)) (checkBodies globals ds ts)
      (checkBodies globals (ds.map (Decl.move φ)) ts) := by
  induction ds generalizing ts with
  | nil => exact .ok _ []
  | cons d ds ih =>
    cases ts with
    | nil => exact .ok _ []
    | cons t ts =>
      refine (checkBody_mirrors globals d t).bind fun _ => ?_
      refine (ih ts).bind fun rest => ?_
      exact .ok (List.map (CheckedDecl.move φ)) (⟨d.label, d.pos, t, d.body⟩ :: rest)

theorem check_mirrors {ds : List Decl} (hds : ds ≠ []) :
    Mirrors φ (move φ) (check ds) (check (ds.map (Decl.move φ))) := by
  refine (declare_mirrors Builtin.table ds).bind fun (globals, ts) => ?_
  refine (checkMain_mirrors hds ts).bind fun _ => ?_
  refine (checkBodies_mirrors globals ds ts).bind fun decls => ?_
  exact .ok (move φ) ⟨globals, decls⟩

end Program

end ExprLang

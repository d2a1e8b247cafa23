import ExprLang.Proofs.Evaluation.Ensures
import ExprLang.Proofs.Evaluation.Step

namespace ExprLang

/-- An end in a value, or in an error other than that of a global used while it was computed. -/
def Outcome.IsAcyclic {α : Type} : Outcome α → Prop
  | value _ => True
  | error e => ¬ e.IsCyclic
  | outOfFuel => False

namespace Expr

mutual

/-- Whether an expression refers to a function of the host. -/
def mentionsHost : Expr → Bool
  | int _ _ | bool _ _ | str _ _ | emptyOf _ _ => false
  | ident _ name => (Builtin.ofName? name).isSome
  | list _ items | tuple _ items => anyMentionsHost items
  | call _ callee _ args => callee.mentionsHost || anyMentionsHost args
  | cond _ test yes no => test.mentionsHost || yes.mentionsHost || no.mentionsHost
  | unpack _ _ _ whole yes no => whole.mentionsHost || yes.mentionsHost || no.mentionsHost
  | letName _ _ value body | letTuple _ _ value body => value.mentionsHost || body.mentionsHost
  | cons _ head tail => head.mentionsHost || tail.mentionsHost
  | binary _ _ left right => left.mentionsHost || right.mentionsHost
  | unary _ _ operand => operand.mentionsHost

def anyMentionsHost : List Expr → Bool
  | [] => false
  | e :: es => e.mentionsHost || anyMentionsHost es

end

mutual

theorem mentionsHost_eq_false_iff (e : Expr) :
    e.mentionsHost = false ↔ ∀ x ∈ e.idents, Builtin.ofName? x = none := by
  cases e with
  | int | bool | str | emptyOf => simp [mentionsHost, idents]
  | ident pos name => simp [mentionsHost, idents]
  | list pos items | tuple pos items => exact anyMentionsHost_eq_false_iff items
  | call pos callee types args =>
    rw [mentionsHost, idents, Bool.or_eq_false_iff, List.forall_mem_append,
      mentionsHost_eq_false_iff callee, anyMentionsHost_eq_false_iff args]
  | cond pos test yes no =>
    rw [mentionsHost, idents, Bool.or_eq_false_iff, Bool.or_eq_false_iff, List.forall_mem_append,
      List.forall_mem_append, mentionsHost_eq_false_iff test, mentionsHost_eq_false_iff yes,
      mentionsHost_eq_false_iff no]
  | unpack pos head tail whole yes no =>
    rw [mentionsHost, idents, Bool.or_eq_false_iff, Bool.or_eq_false_iff, List.forall_mem_append,
      List.forall_mem_append, mentionsHost_eq_false_iff whole, mentionsHost_eq_false_iff yes,
      mentionsHost_eq_false_iff no]
  | letName pos name value body | letTuple pos names value body =>
    rw [mentionsHost, idents, Bool.or_eq_false_iff, List.forall_mem_append,
      mentionsHost_eq_false_iff value, mentionsHost_eq_false_iff body]
  | cons pos head tail =>
    rw [mentionsHost, idents, Bool.or_eq_false_iff, List.forall_mem_append,
      mentionsHost_eq_false_iff head, mentionsHost_eq_false_iff tail]
  | binary pos op left right =>
    rw [mentionsHost, idents, Bool.or_eq_false_iff, List.forall_mem_append,
      mentionsHost_eq_false_iff left, mentionsHost_eq_false_iff right]
  | unary pos op operand => exact mentionsHost_eq_false_iff operand

theorem anyMentionsHost_eq_false_iff (es : List Expr) :
    anyMentionsHost es = false ↔ ∀ x ∈ identsAll es, Builtin.ofName? x = none := by
  cases es with
  | nil => simp [anyMentionsHost, identsAll]
  | cons e es =>
    rw [anyMentionsHost, identsAll, Bool.or_eq_false_iff, List.forall_mem_append,
      mentionsHost_eq_false_iff e, anyMentionsHost_eq_false_iff es]

end

end Expr

def Callable.IsDeclared : Callable → Prop
  | builtin _ => False
  | global _ => True

namespace Value

mutual

/-- No function of the host is in a value. -/
def HostFree : Value → Prop
  | fn (.builtin _) => False
  | list items | tuple items => AllHostFree items
  | _ => True

def AllHostFree : List Value → Prop
  | [] => True
  | v :: vs => v.HostFree ∧ AllHostFree vs

end

mutual

theorem hostFree_iff_only (v : Value) : v.HostFree ↔ v.Only Callable.IsDeclared := by
  cases v with
  | int | bool => exact .rfl
  | list vs | tuple vs => exact allHostFree_iff_allOnly vs
  | fn c => cases c <;> exact .rfl

theorem allHostFree_iff_allOnly (vs : List Value) :
    AllHostFree vs ↔ AllOnly Callable.IsDeclared vs := by
  cases vs with
  | nil => exact .rfl
  | cons v vs => exact and_congr (hostFree_iff_only v) (allHostFree_iff_allOnly vs)

end

theorem hostFree_eq : HostFree = Only Callable.IsDeclared :=
  funext fun v => propext v.hostFree_iff_only

theorem allHostFree_eq : AllHostFree = AllOnly Callable.IsDeclared :=
  funext fun vs => propext (allHostFree_iff_allOnly vs)

end Value

namespace Env

def HostFree (env : Env) : Prop := ∀ name v, env.lookup name = some v → v.HostFree

theorem hostFree_eq : HostFree = Only Callable.IsDeclared := by
  funext env
  rw [HostFree, Only, Value.hostFree_eq]

end Env

namespace Eval

variable {α β : Type}

/-- A computation that makes no request, has one outcome and does not touch the memo. -/
def Returns (x : Eval α) (r : Outcome α) : Prop := ∀ m, x m = .done (r, m)

namespace Returns

variable {x : Eval α} {k : α → Eval β}

theorem bind_value {a : α} {r : Outcome β} (hx : x.Returns (.value a)) (hk : (k a).Returns r) :
    (x >>= k).Returns r := by
  intro m
  change (x m).bind _ = _
  rw [hx m]
  exact hk m

theorem bind_error {e : RuntimeError} (hx : x.Returns (.error e)) :
    (x >>= k).Returns (.error e) := by
  intro m
  change (x m).bind _ = _
  rw [hx m]
  rfl

theorem bind_outOfFuel (hx : x.Returns .outOfFuel) : (x >>= k).Returns .outOfFuel := by
  intro m
  change (x m).bind _ = _
  rw [hx m]
  rfl

end Returns

/-- A family of computations, one for each fuel, that has one outcome once the fuel suffices. -/
structure Converges (X : Nat → Eval α) (r : Outcome α) : Prop where
  agree : ∀ k, (X k).Returns .outOfFuel ∨ (X k).Returns r
  limit : ∃ k, ∀ j, k ≤ j → (X j).Returns r

namespace Converges

variable {X : Nat → Eval α} {K : Nat → α → Eval β}

theorem const {x : Eval α} {r : Outcome α} (h : x.Returns r) : Converges (fun _ => x) r :=
  ⟨fun _ => .inr h, 0, fun _ _ => h⟩

theorem bind {a : α} {r : Outcome β} (hX : Converges X (.value a))
    (hK : Converges (fun k => K k a) r) : Converges (fun k => X k >>= K k) r := by
  constructor
  · intro k
    obtain hfuel | hvalue := hX.agree k
    · exact .inl hfuel.bind_outOfFuel
    · obtain hfuel | hr := hK.agree k
      · exact .inl (hvalue.bind_value hfuel)
      · exact .inr (hvalue.bind_value hr)
  · obtain ⟨k, hk⟩ := hX.limit
    obtain ⟨k', hk'⟩ := hK.limit
    refine ⟨max k k', fun j hj => ?_⟩
    exact (hk j (by omega)).bind_value (hk' j (by omega))

theorem bind_error {e : RuntimeError} (hX : Converges X (.error e)) :
    Converges (fun k => X k >>= K k) (.error e) := by
  constructor
  · intro k
    obtain hfuel | herror := hX.agree k
    · exact .inl hfuel.bind_outOfFuel
    · exact .inr herror.bind_error
  · obtain ⟨k, hk⟩ := hX.limit
    exact ⟨k, fun j hj => (hk j hj).bind_error⟩

theorem succ {Y : Nat → Eval α} {r : Outcome α} (hY : Converges Y r) (hzero : X 0 = outOfFuel)
    (hsucc : ∀ k, X (k + 1) = Y k) : Converges X r := by
  constructor
  · intro k
    cases k with
    | zero =>
      rw [hzero]
      exact .inl fun _ => rfl
    | succ k =>
      rw [hsucc]
      exact hY.agree k
  · obtain ⟨k, hk⟩ := hY.limit
    refine ⟨k + 1, fun j hj => ?_⟩
    cases j with
    | zero => omega
    | succ j =>
      rw [hsucc]
      exact hk j (by omega)

end Converges

end Eval

namespace Program

open Eval

variable (p : Program)

/-- Every remembered value is the one that its global has when it is computed anew. -/
def Faithful (m : Memo) : Prop :=
  m.Holds fun name v => v.HostFree ∧ ∀ pos, Converges (fun k => p.globalAnew k name pos) (.value v)

/-- Computing anew any global that is being computed takes more fuel than `k`. -/
def Pending (m : Memo) (k : Nat) : Prop :=
  ∀ name, m.Marks name → ∀ j, j ≤ k → ∀ pos, (p.globalAnew j name pos).Returns .outOfFuel

/-- How an outcome with a memo, and with fuel `n`, tells what the computations anew do. One that
runs into a global that is being computed lacks fuel as long as that global does. -/
def Agrees {α : Type} (n : Nat) (m : Memo) (X : Nat → Eval α) (Q : α → Prop) : Outcome α → Prop
  | .value a => Q a ∧ Converges X (.value a)
  | .error e =>
    (¬ e.IsCyclic ∧ Converges X (.error e)) ∨
      (e.IsCyclic ∧ ∀ k, p.Pending m k → (X k).Returns .outOfFuel)
  | .outOfFuel => ∀ k, k ≤ n → (X k).Returns .outOfFuel

/-- From a memo, a computation with fuel `n` makes no request, agrees with the computations anew,
and leaves a faithful memo in which the same globals are being computed. -/
def TracksFrom {α : Type} (m : Memo) (n : Nat) (x : Eval α) (X : Nat → Eval α) (Q : α → Prop) :
    Prop :=
  ∃ outcome m', x m = .done (outcome, m') ∧ p.Faithful m' ∧
    (∀ name, m'.Marks name ↔ m.Marks name) ∧ p.Agrees n m X Q outcome

def Tracks {α : Type} (n : Nat) (x : Eval α) (X : Nat → Eval α) (Q : α → Prop) : Prop :=
  ∀ m, p.Faithful m → p.TracksFrom m n x X Q

variable {p}

theorem Pending.mono {m : Memo} {j k : Nat} (h : p.Pending m k) (hjk : j ≤ k) : p.Pending m j :=
  fun name hname i hi => h name hname i (Nat.le_trans hi hjk)

theorem Pending.of_marks {m m' : Memo} {k : Nat} (h : p.Pending m k)
    (hmarks : ∀ name, m'.Marks name ↔ m.Marks name) : p.Pending m' k :=
  fun name hname => h name ((hmarks name).1 hname)

namespace Tracks

variable {α β : Type} {n : Nat} {x : Eval α} {X : Nat → Eval α} {Q : α → Prop} {R : β → Prop}

theorem pure {a : α} (h : Q a) : p.Tracks n (Pure.pure a) (fun _ => Pure.pure a) Q :=
  fun m hm => ⟨.value a, m, rfl, hm, fun _ => .rfl, h, .const fun _ => rfl⟩

theorem fail {fault : RuntimeFault} (h : ¬ fault.IsCyclic) (pos : Position) :
    p.Tracks n (Eval.fail fault pos) (fun _ => Eval.fail fault pos) Q :=
  fun m hm => ⟨.error _, m, rfl, hm, fun _ => .rfl, .inl ⟨h, .const fun _ => rfl⟩⟩

theorem lift {r : Except RuntimeFault α} (hok : ∀ a, r = .ok a → Q a)
    (herror : ∀ fault, r = .error fault → ¬ fault.IsCyclic) (pos : Position) :
    p.Tracks n (Eval.lift r pos) (fun _ => Eval.lift r pos) Q := by
  cases r with
  | ok a => exact pure (hok a rfl)
  | error fault => exact fail (herror fault rfl) pos

theorem outOfFuel (hzero : X 0 = Eval.outOfFuel) : p.Tracks 0 Eval.outOfFuel X Q := by
  refine fun m hm => ⟨.outOfFuel, m, rfl, hm, fun _ => .rfl, fun k hk => ?_⟩
  rw [Nat.le_zero.1 hk, hzero]
  exact fun _ => rfl

theorem bind {k : α → Eval β} {K : Nat → α → Eval β} (hx : p.Tracks n x X Q)
    (hk : ∀ a, Q a → p.Tracks n (k a) (fun j => K j a) R) :
    p.Tracks n (x >>= k) (fun j => X j >>= K j) R := by
  intro m hm
  obtain ⟨outcome, m', hrun, hm', hmarks, hagrees⟩ := hx m hm
  have hbind : (x >>= k) m = (x m).bind _ := rfl
  rw [TracksFrom, hbind, hrun]
  cases outcome with
  | value a =>
    obtain ⟨hQ, hconverges⟩ := hagrees
    obtain ⟨outcome, m'', hrun', hm'', hmarks', hagrees'⟩ := hk a hQ m' hm'
    refine ⟨outcome, m'', hrun', hm'', fun name => (hmarks' name).trans (hmarks name), ?_⟩
    -- with any fuel, the first computation anew lacks it or has the same value
    have hlack (j : Nat) (h : (K j a).Returns .outOfFuel) : (X j >>= K j).Returns .outOfFuel := by
      obtain hfuel | hvalue := hconverges.agree j
      · exact hfuel.bind_outOfFuel
      · exact hvalue.bind_value h
    cases outcome with
    | value b => exact ⟨hagrees'.1, hconverges.bind hagrees'.2⟩
    | error e =>
      obtain ⟨hcyclic, herror⟩ | ⟨hcyclic, hstuck⟩ := hagrees'
      · exact .inl ⟨hcyclic, hconverges.bind herror⟩
      · exact .inr ⟨hcyclic, fun j hj => hlack j (hstuck j (hj.of_marks hmarks))⟩
    | outOfFuel => exact fun j hj => hlack j (hagrees' j hj)
  | error e =>
    refine ⟨.error e, m', rfl, hm', hmarks, ?_⟩
    obtain ⟨hcyclic, herror⟩ | ⟨hcyclic, hstuck⟩ := hagrees
    · exact .inl ⟨hcyclic, herror.bind_error⟩
    · exact .inr ⟨hcyclic, fun j hj => (hstuck j hj).bind_outOfFuel⟩
  | outOfFuel =>
    exact ⟨.outOfFuel, m', rfl, hm', hmarks, fun j hj => (hagrees j hj).bind_outOfFuel⟩

theorem succ {Y : Nat → Eval α} (h : p.Tracks n x Y Q) (hzero : X 0 = Eval.outOfFuel)
    (hsucc : ∀ k, X (k + 1) = Y k) : p.Tracks (n + 1) x X Q := by
  intro m hm
  obtain ⟨outcome, m', hrun, hm', hmarks, hagrees⟩ := h m hm
  refine ⟨outcome, m', hrun, hm', hmarks, ?_⟩
  have hlack (k : Nat) (h : ∀ j, j + 1 = k → (Y j).Returns .outOfFuel) :
      (X k).Returns .outOfFuel := by
    cases k with
    | zero =>
      rw [hzero]
      exact fun _ => rfl
    | succ j =>
      rw [hsucc]
      exact h j rfl
  cases outcome with
  | value a => exact ⟨hagrees.1, hagrees.2.succ hzero hsucc⟩
  | error e =>
    obtain ⟨hcyclic, herror⟩ | ⟨hcyclic, hstuck⟩ := hagrees
    · exact .inl ⟨hcyclic, herror.succ hzero hsucc⟩
    · refine .inr ⟨hcyclic, fun k hk => hlack k fun j hj => ?_⟩
      exact hstuck j (hk.mono (by omega))
  | outOfFuel => exact fun k hk => hlack k fun j hj => hagrees j (by omega)

theorem stepwise : Stepwise fun Q (x : Eval _) X => p.Tracks n x X Q where
  pure h := pure h
  lift hok herror pos := lift hok herror pos
  bind hx hk := bind hx hk

end Tracks

theorem evalStep_tracks {n : Nat} {eval : Env → Expr → Eval Value}
    {global : String → Position → Eval Value} {call : Value → List Value → Position → Eval Value}
    {eval' : Nat → Env → Expr → Eval Value} {global' : Nat → String → Position → Eval Value}
    {call' : Nat → Value → List Value → Position → Eval Value}
    (heval : ∀ env e, env.HostFree → e.mentionsHost = false →
      p.Tracks n (eval env e) (fun k => eval' k env e) Value.HostFree)
    (hglobal : ∀ name pos, Builtin.ofName? name = none →
      p.Tracks n (global name pos) (fun k => global' k name pos) Value.HostFree)
    (hcall : ∀ f args pos, f.HostFree → Value.AllHostFree args →
      p.Tracks n (call f args pos) (fun k => call' k f args pos) Value.HostFree)
    {env : Env} {e : Expr} (henv : env.HostFree) (he : e.mentionsHost = false) :
    p.Tracks n (evalStep eval global call env e)
      (fun k => evalStep (eval' k) (global' k) (call' k) env e) Value.HostFree := by
  simp only [Env.hostFree_eq, Value.hostFree_eq, Value.allHostFree_eq,
    Expr.mentionsHost_eq_false_iff] at heval hglobal hcall henv he ⊢
  exact Tracks.stepwise.evalStep eval' global' call' heval hglobal hcall henv he

theorem callStep_tracks {n : Nat} {eval : Env → Expr → Eval Value}
    {eval' : Nat → Env → Expr → Eval Value} (hbodies : ∀ d ∈ p.decls, d.body.mentionsHost = false)
    (heval : ∀ env e, env.HostFree → e.mentionsHost = false →
      p.Tracks n (eval env e) (fun k => eval' k env e) Value.HostFree)
    {f : Value} {args : List Value} (pos : Position) (hf : f.HostFree)
    (hargs : Value.AllHostFree args) :
    p.Tracks n (callStep p (fun _ => eval) f args pos)
      (fun k => callStep p (fun _ => eval' k) f args pos) Value.HostFree := by
  simp only [Env.hostFree_eq, Value.hostFree_eq, Value.allHostFree_eq] at heval hf hargs ⊢
  apply Tracks.stepwise.callStep (fun k _ => eval' k) _ (fun _ _ => rfl) _ hf hargs
  · intro b hb
    exact hb.elim
  · intro label d env _ hd henv
    exact heval env d.body henv (hbodies d (mem_of_find? hd))

/-- A global whose body runs into its own mark lacks fuel, by induction on the fuel, for as long as
the globals that were marked before do. -/
theorem Pending.mark {name : String} {body : Expr} {m : Memo} {k : Nat} (hk : p.Pending m k)
    (hanew : ∀ j pos, p.globalAnew (j + 1) name pos = p.evalAnew j [] body)
    (hstuck : ∀ j, p.Pending (m.insert name .evaluating) j →
      (p.evalAnew j [] body).Returns .outOfFuel) :
    p.Pending (m.insert name .evaluating) k := by
  have hself (j : Nat) (hj : j ≤ k) (pos : Position) :
      (p.globalAnew j name pos).Returns .outOfFuel := by
    induction j using Nat.strongRecOn generalizing pos with
    | ind j ih =>
      cases j with
      | zero => exact fun _ => rfl
      | succ j =>
        rw [hanew]
        apply hstuck
        intro other hother i hi pos'
        obtain rfl | hother := (m.marks_insert_evaluating name other).1 hother
        · exact ih i (by omega) (by omega) pos'
        · exact hk other hother i (by omega) pos'
  intro other hother j hj pos
  obtain rfl | hother := (m.marks_insert_evaluating name other).1 hother
  · exact hself j hj pos
  · exact hk other hother j hj pos

theorem remember_tracksFrom {n : Nat} {name : String} {body : Expr} (pos : Position) {m : Memo}
    (hanew : ∀ k pos, p.globalAnew (k + 1) name pos = p.evalAnew k [] body)
    (hbody : p.Tracks n (p.eval n [] body) (fun k => p.evalAnew k [] body) Value.HostFree)
    (hm : p.Faithful m) (hname : m.lookup name = none) :
    p.TracksFrom m (n + 1) (remember name (p.eval n [] body))
      (fun k => p.globalAnew k name pos) Value.HostFree := by
  have hunmarked (other : String) (hother : m.Marks other) : other ≠ name := by
    rintro rfl
    cases hname.symm.trans hother
  have hmark : p.Faithful (m.insert name .evaluating) := hm.insert nofun
  obtain ⟨outcome, m', hrun, hm', hmarks, hagrees⟩ := hbody _ hmark
  -- without its own mark, the memo has the marks that it had
  have hrestored (other : String) : other ≠ name ∧ m'.Marks other ↔ m.Marks other := by
    rw [hmarks, Memo.marks_insert_evaluating]
    constructor
    · rintro ⟨hother, hsame | hmarked⟩
      · exact (hother hsame).elim
      · exact hmarked
    · exact fun hmarked => ⟨hunmarked other hmarked, .inr hmarked⟩
  have herased (other : String) : (m'.erase name).Marks other ↔ m.Marks other :=
    (m'.marks_erase name other).trans (hrestored other)
  rw [TracksFrom, remember, hrun]
  cases outcome with
  | value v =>
    have hready (other : String) : (m'.insert name (.ready v)).Marks other ↔ m.Marks other :=
      (m'.marks_insert_ready name other v).trans (hrestored other)
    have hconverges (pos : Position) :
        Converges (fun k => p.globalAnew k name pos) (.value v) :=
      hagrees.2.succ rfl fun k => hanew k pos
    refine ⟨.value v, _, rfl, hm'.insert fun w hw => ?_, hready, hagrees.1, hconverges pos⟩
    cases hw
    exact ⟨hagrees.1, hconverges⟩
  | error e =>
    refine ⟨.error e, _, rfl, hm'.erase name, herased, ?_⟩
    obtain ⟨hcyclic, herror⟩ | ⟨hcyclic, hstuck⟩ := hagrees
    · exact .inl ⟨hcyclic, herror.succ rfl fun k => hanew k pos⟩
    · refine .inr ⟨hcyclic, fun k hk => ?_⟩
      have hmarked := (m.marks_insert_evaluating name name).2 (.inl rfl)
      exact hk.mark hanew hstuck name hmarked k (Nat.le_refl k) pos
  | outOfFuel =>
    refine ⟨.outOfFuel, _, rfl, hm'.erase name, herased, fun k hk => ?_⟩
    cases k with
    | zero => exact fun _ => rfl
    | succ k =>
      simp only [hanew]
      exact hagrees k (by omega)

theorem declared_tracksFrom {n : Nat} {name : String} (pos : Position) {m : Memo}
    (hanew : ∀ k pos, p.globalAnew (k + 1) name pos =
      (declared p name pos >>= fun d => p.evalAnew k [] d.body))
    (hbody : ∀ d ∈ p.decls,
      p.Tracks n (p.eval n [] d.body) (fun k => p.evalAnew k [] d.body) Value.HostFree)
    (hm : p.Faithful m) (hname : m.lookup name = none) :
    p.TracksFrom m (n + 1) (declared p name pos >>= fun d => remember name (p.eval n [] d.body))
      (fun k => p.globalAnew k name pos) Value.HostFree := by
  cases hfind : p.find? name with
  | none =>
    simp only [declared, hfind] at hanew ⊢
    exact Tracks.succ (.fail id pos) rfl (fun k => hanew k pos) m hm
  | some d =>
    simp only [declared, hfind] at hanew ⊢
    exact remember_tracksFrom pos hanew (hbody d (mem_of_find? hfind)) hm hname

theorem global_tracks {n : Nat} {name : String} (pos : Position)
    (hname : Builtin.ofName? name = none)
    (hbody : ∀ d ∈ p.decls,
      p.Tracks n (p.eval n [] d.body) (fun k => p.evalAnew k [] d.body) Value.HostFree) :
    p.Tracks (n + 1) (p.global (n + 1) name pos) (fun k => p.globalAnew k name pos)
      Value.HostFree := by
  intro m hm
  rw [TracksFrom, global, slot?_bind]
  cases hslot : m.lookup name with
  | some slot =>
    cases slot with
    | ready v =>
      obtain ⟨hv, hconverges⟩ := hm name v hslot
      exact ⟨.value v, m, rfl, hm, fun _ => .rfl, hv, hconverges pos⟩
    | evaluating =>
      refine ⟨.error (.fault ⟨.cyclicGlobal name, pos⟩), m, rfl, hm, fun _ => .rfl, .inr ?_⟩
      exact ⟨trivial, fun k hk => hk name hslot k (Nat.le_refl k) pos⟩
  | none =>
    cases hlookup : p.globals.lookup name with
    | none =>
      exact declared_tracksFrom pos (fun k pos => by rw [globalAnew, hlookup]) hbody hm hslot
    | some t =>
      cases t with
      | fn =>
        have hfree : Value.HostFree (.fn (.ofName name)) := by
          rw [Callable.ofName, hname]
          trivial
        refine Tracks.succ (.pure hfree) rfl (fun k => ?_) m hm
        rw [globalAnew, hlookup]
      | _ => exact declared_tracksFrom pos (fun k pos => by rw [globalAnew, hlookup]) hbody hm hslot

/-- Evaluation with a memo tracks evaluation anew, by induction on the fuel. -/
theorem tracks (hbodies : ∀ d ∈ p.decls, d.body.mentionsHost = false) (n : Nat) :
    (∀ env e, env.HostFree → e.mentionsHost = false →
      p.Tracks n (p.eval n env e) (fun k => p.evalAnew k env e) Value.HostFree) ∧
    (∀ name pos, Builtin.ofName? name = none →
      p.Tracks n (p.global n name pos) (fun k => p.globalAnew k name pos) Value.HostFree) ∧
    ∀ f args pos, f.HostFree → Value.AllHostFree args →
      p.Tracks n (p.call n f args pos) (fun k => p.callAnew k f args pos) Value.HostFree := by
  induction n with
  | zero =>
    refine ⟨?_, ?_, ?_⟩ <;> intros <;> exact .outOfFuel rfl
  | succ n ih =>
    obtain ⟨heval, hglobal, hcall⟩ := ih
    refine ⟨?_, ?_, ?_⟩
    · intro env e henv he
      rw [eval]
      exact (evalStep_tracks heval hglobal hcall henv he).succ rfl fun _ => rfl
    · intro name pos hname
      exact global_tracks pos hname fun d hd => heval [] d.body nofun (hbodies d hd)
    · intro f args pos hf hargs
      rw [call]
      exact (callStep_tracks hbodies heval pos hf hargs).succ rfl fun _ => rfl

theorem start_tracks (hbodies : ∀ d ∈ p.decls, d.body.mentionsHost = false) (n : Nat)
    (args : List String) :
    p.Tracks n (p.start n args) (fun k => p.startAnew k args) fun _ => True := by
  obtain ⟨-, hglobal, hcall⟩ := tracks hbodies n
  simp only [Value.hostFree_eq, Value.allHostFree_eq] at hglobal hcall
  exact Tracks.stepwise.startStep p.globalAnew p.callAnew args (hglobal mainLabel p.mainPos rfl)
    fun f args => hcall f args p.mainPos

theorem runAnew_eq {n : Nat} {args : List String} {r : Outcome Int64}
    (h : (p.startAnew n args).Returns r) : p.runAnew n args = .done r := by
  rw [runAnew, h]
  rfl

theorem run_agrees (hbodies : ∀ d ∈ p.decls, d.body.mentionsHost = false) (n : Nat)
    (args : List String) : ∃ r, p.run n args = .done r ∧
      p.Agrees n [] (fun k => p.startAnew k args) (fun _ => True) r := by
  obtain ⟨r, m, hrun, -, -, hagrees⟩ := start_tracks hbodies n args [] .nil
  refine ⟨r, ?_, hagrees⟩
  rw [run, hrun]
  rfl

theorem Pending.nil (k : Nat) : p.Pending [] k := nofun

/-- What an outcome says of the computation anew with any fuel: unless it lacks fuel, it ends so. -/
theorem Agrees.returns {n k : Nat} {α : Type} {X : Nat → Eval α} {Q : α → Prop} {r : Outcome α}
    (h : p.Agrees n [] X Q r) (hk : k ≤ n) : (X k).Returns .outOfFuel ∨ (X k).Returns r := by
  cases r with
  | value a => exact h.2.agree k
  | error e =>
    obtain ⟨-, herror⟩ | ⟨-, hstuck⟩ := h
    · exact herror.agree k
    · exact .inl (hstuck k (Pending.nil k))
  | outOfFuel => exact .inl (h k hk)

/-- Remembering the values of globals changes no result, and finds out the globals that would be
computed for ever. -/
theorem run_memo_transparent (p : Program) (hbodies : ∀ d ∈ p.decls, d.body.mentionsHost = false)
    (args : List String) :
    (∀ r : Outcome Int64, r.IsAcyclic →
      ((∃ fuel, p.run fuel args = .done r) ↔ ∃ fuel, p.runAnew fuel args = .done r)) ∧
    ∀ name pos, (∃ fuel, p.run fuel args = .done (.error (.fault ⟨.cyclicGlobal name, pos⟩))) →
      ∀ fuel, p.runAnew fuel args = .done .outOfFuel := by
  constructor
  · intro r hr
    constructor
    · rintro ⟨n, hrun⟩
      obtain ⟨r', hrun', hagrees⟩ := run_agrees hbodies n args
      cases Dialogue.done.inj (hrun.symm.trans hrun')
      have hlimit : ∃ k, (p.startAnew k args).Returns r := by
        cases r with
        | value status =>
          obtain ⟨k, hk⟩ := hagrees.2.limit
          exact ⟨k, hk k (Nat.le_refl k)⟩
        | error e =>
          obtain ⟨-, herror⟩ | ⟨hcyclic, -⟩ := hagrees
          · obtain ⟨k, hk⟩ := herror.limit
            exact ⟨k, hk k (Nat.le_refl k)⟩
          · exact (hr hcyclic).elim
        | outOfFuel => exact hr.elim
      obtain ⟨k, hk⟩ := hlimit
      exact ⟨k, runAnew_eq hk⟩
    · rintro ⟨n, hrun⟩
      -- with the fuel that suffices without a memo, the run with one does not lack fuel either
      obtain ⟨r', hrun', hagrees⟩ := run_agrees hbodies n args
      refine ⟨n, hrun'.trans ?_⟩
      obtain hlack | hsame := hagrees.returns (Nat.le_refl n)
      · cases Dialogue.done.inj (hrun.symm.trans (runAnew_eq hlack))
        exact hr.elim
      · rw [← hrun, runAnew_eq hsame]
  · rintro name pos ⟨n, hrun⟩ k
    obtain ⟨r, hrun', hagrees⟩ := run_agrees hbodies n args
    cases Dialogue.done.inj (hrun.symm.trans hrun')
    obtain ⟨hcyclic, -⟩ | ⟨-, hstuck⟩ := hagrees
    · exact (hcyclic trivial).elim
    · exact runAnew_eq (hstuck k (Pending.nil k))

def squares : Program where
  globals := Builtin.table ++ [("side", .int), ("area", .int), ("main", mainType)]
  decls :=
    [⟨"side", .start, .int, .int .start 6⟩,
      ⟨"area", .start, .int, .binary .start .mul (.ident .start "side") (.ident .start "side")⟩,
      ⟨"main", .start, mainType,
        .binary .start .add (.ident .start "area") (.ident .start "side")⟩]

/-- Two values that use each other. -/
def circle : Program where
  globals := Builtin.table ++ [("left", .int), ("right", .int), ("main", mainType)]
  decls :=
    [⟨"left", .start, .int, .ident .start "right"⟩, ⟨"right", .start, .int, .ident .start "left"⟩,
      ⟨"main", .start, mainType, .ident .start "left"⟩]

theorem run_memo_transparent_squares :
    (∃ fuel, squares.runAnew fuel [] = .done (.value 42)) ∧
      ∀ fuel, circle.runAnew fuel [] = .done .outOfFuel := by
  constructor
  · have hrun : squares.run 8 [] = .done (.value 42) := rfl
    exact ((run_memo_transparent squares (by decide) []).1 (.value 42) trivial).1 ⟨8, hrun⟩
  · have hrun : circle.run 8 [] = .done (.error (.fault ⟨.cyclicGlobal "left", .start⟩)) := rfl
    exact (run_memo_transparent circle (by decide) []).2 "left" .start ⟨8, hrun⟩

end Program

end ExprLang

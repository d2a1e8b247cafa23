import ExprLang.Proofs.Evaluation.Discipline
import ExprLang.Proofs.Typing.Checked

namespace ExprLang

variable {α β : Type}

/-- What a history notes: the evaluation of the body of a declaration begins, or it ends in a value
or without one. -/
inductive Entry where
  | begins (label : String)
  | ends (label : String) (value? : Option Value)

namespace Entry

def label : Entry → String
  | begins label | ends label _ => label

def isBegin (name : String) : Entry → Bool
  | begins label => label == name
  | ends _ _ => false

def isEnd (name : String) : Entry → Bool
  | begins _ => false
  | ends label _ => label == name

def isValue (name : String) : Entry → Bool
  | ends label (some _) => label == name
  | _ => false

end Entry

def Outcome.value? : Outcome α → Option α
  | value a => some a
  | error _ | outOfFuel => none

/-- An evaluation that answers its history too. -/
def Recorded (α : Type) : Type := Memo → Dialogue ((Outcome α × Memo) × List Entry)

namespace Recorded

instance : Monad Recorded where
  pure a := fun m => .done ((.value a, m), [])
  bind x f := fun m => (x m).bind fun
    | ((.value a, m), log) => (f a m).bind fun r => .done (r.1, log ++ r.2)
    | ((.error e, m), log) => .done ((.error e, m), log)
    | ((.outOfFuel, m), log) => .done ((.outOfFuel, m), log)

/-- An evaluation in which no body is evaluated. -/
def silent (x : Eval α) : Recorded α := fun m => (x m).bind fun r => .done (r, [])

instance : MonadLift Eval Recorded where
  monadLift := silent

/-- The evaluation of the body of a declaration. -/
def body (label : String) (x : Recorded Value) : Recorded Value := fun m =>
  (x m).bind fun r => .done (r.1, .begins label :: r.2 ++ [.ends label r.1.1.value?])

def remember (name : String) (x : Recorded Value) : Recorded Value := fun m =>
  (x (m.insert name .evaluating)).bind fun
    | ((.value v, m), log) => .done ((.value v, m.insert name (.ready v)), log)
    | ((.error e, m), log) => .done ((.error e, m.erase name), log)
    | ((.outOfFuel, m), log) => .done ((.outOfFuel, m.erase name), log)

end Recorded

namespace Program

open Eval Recorded

mutual

def evalRecorded (p : Program) : Nat → Env → Expr → Recorded Value
  | 0, _, _ => silent outOfFuel
  | n + 1, env, e => evalStep (evalRecorded p n) (globalRecorded p n) (callRecorded p n) env e

def globalRecorded (p : Program) : Nat → String → Position → Recorded Value
  | 0, _, _ => silent outOfFuel
  | n + 1, name, pos => do
    match ← silent (slot? name) with
    | some (.ready v) => pure v
    | some .evaluating => silent (fail (.cyclicGlobal name) pos)
    | none =>
      match p.globals.lookup name with
      | some (.fn ..) => pure (.fn (.ofName name))
      | _ => do
        let d ← silent (declared p name pos)
        remember name (body name (evalRecorded p n [] d.body))

def callRecorded (p : Program) : Nat → Value → List Value → Position → Recorded Value
  | 0, _, _, _ => silent outOfFuel
  | n + 1, f, args, pos =>
    callStep p (fun label env e => body label (evalRecorded p n env e)) f args pos

end

def startRecorded (p : Program) (fuel : Nat) (args : List String) : Recorded Int64 :=
  startStep (globalRecorded p fuel) (callRecorded p fuel) args p.mainPos

def runRecorded (p : Program) (fuel : Nat) (args : List String) :
    Dialogue (Outcome Int64 × List Entry) :=
  (startRecorded p fuel args []).bind fun r => .done (r.1.1, r.2)

end Program

/-- The slot of a global along a history: it is marked while the body is evaluated, and remembers
the value that this ends in. -/
inductive Slot.Follows (name : String) : Option Slot → List Entry → Option Slot → Prop
  | nil (slot : Option Slot) : Follows name slot [] slot
  | other {slot slot' : Option Slot} {entry : Entry} {log : List Entry}
    (hother : entry.label ≠ name) (h : Follows name slot log slot') :
    Follows name slot (entry :: log) slot'
  | begins {slot : Option Slot} {log : List Entry} (h : Follows name (some .evaluating) log slot) :
    Follows name none (.begins name :: log) slot
  | value {slot : Option Slot} {v : Value} {log : List Entry}
    (h : Follows name (some (.ready v)) log slot) :
    Follows name (some .evaluating) (.ends name (some v) :: log) slot
  | failure {slot : Option Slot} {log : List Entry} (h : Follows name none log slot) :
    Follows name (some .evaluating) (.ends name none :: log) slot

namespace Slot.Follows

variable {name : String} {slot slot' slot'' : Option Slot} {log log' : List Entry}

theorem append (h : Follows name slot log slot') (h' : Follows name slot' log' slot'') :
    Follows name slot (log ++ log') slot'' := by
  induction h with
  | nil => exact h'
  | other hother _ ih => exact .other hother (ih h')
  | begins _ ih => exact .begins (ih h')
  | value _ ih => exact .value (ih h')
  | failure _ ih => exact .failure (ih h')

theorem of_append (h : Follows name slot (log ++ log') slot'') :
    ∃ slot', Follows name slot log slot' := by
  induction log generalizing slot with
  | nil => exact ⟨slot, .nil slot⟩
  | cons entry log ih =>
    cases h with
    | other hother h =>
      obtain ⟨slot', h⟩ := ih h
      exact ⟨slot', .other hother h⟩
    | begins h =>
      obtain ⟨slot', h⟩ := ih h
      exact ⟨slot', .begins h⟩
    | value h =>
      obtain ⟨slot', h⟩ := ih h
      exact ⟨slot', .value h⟩
    | failure h =>
      obtain ⟨slot', h⟩ := ih h
      exact ⟨slot', .failure h⟩

/-- The history of a whole computation of a global, around that of the evaluation of its body. -/
theorem computation {other : String} {m m' m'' : Memo} {value? : Option Value}
    (hnew : m.lookup name = none) (hmarked : m'.lookup name = some .evaluating)
    (hend : Follows name (some .evaluating) [.ends name value?] (m''.lookup name))
    (hothers : ∀ other, other ≠ name → m''.lookup other = m'.lookup other)
    (h : Follows other ((m.insert name .evaluating).lookup other) log (m'.lookup other)) :
    Follows other (m.lookup other) (.begins name :: log ++ [.ends name value?])
      (m''.lookup other) := by
  rw [Memo.lookup_insert] at h
  by_cases hother : other = name
  · subst hother
    rw [if_pos rfl, hmarked] at h
    rw [hnew]
    exact .begins (h.append hend)
  · rw [if_neg hother] at h
    rw [hothers other hother]
    exact .other (Ne.symm hother) (h.append (.other (Ne.symm hother) (.nil _)))

/-- Whether a slot is marked, counted. -/
def marked : Option Slot → Nat
  | some .evaluating => 1
  | _ => 0

/-- Whether a slot has a value, counted. -/
def filled : Option Slot → Nat
  | some (.ready _) => 1
  | _ => 0

/-- Evaluations that have begun and not ended are the mark. -/
theorem count_begin (h : Follows name slot log slot') :
    log.countP (Entry.isBegin name) + marked slot =
      log.countP (Entry.isEnd name) + marked slot' := by
  induction h with
  | nil => rfl
  | @other _ _ entry _ hother _ ih =>
    have hnone : Entry.isBegin name entry = false ∧ Entry.isEnd name entry = false := by
      cases entry with
      | begins label => exact ⟨beq_false_of_ne hother, rfl⟩
      | ends label value? => exact ⟨rfl, beq_false_of_ne hother⟩
    rw [List.countP_cons, List.countP_cons, hnone.1, hnone.2]
    exact ih
  | begins _ ih | value _ ih | failure _ ih =>
    simp [Entry.isBegin, Entry.isEnd, marked] at ih ⊢
    omega

/-- An evaluation that ends in a value fills the slot for good. -/
theorem count_value (h : Follows name slot log slot') :
    log.countP (Entry.isValue name) + filled slot = filled slot' := by
  induction h with
  | nil => exact Nat.zero_add _
  | @other _ _ entry _ hother _ ih =>
    have hnone : Entry.isValue name entry = false := by
      cases entry with
      | begins label => rfl
      | ends label value? =>
        cases value? with
        | none => rfl
        | some v => exact beq_false_of_ne hother
    rw [List.countP_cons, hnone]
    exact ih
  | begins _ ih | value _ ih | failure _ ih =>
    simp [Entry.isValue, filled] at ih ⊢
    omega

theorem once (h : Follows name none log slot) :
    log.countP (Entry.isValue name) ≤ 1 ∧
      ∀ early, early <+: log →
        early.countP (Entry.isBegin name) ≤ early.countP (Entry.isEnd name) + 1 := by
  constructor
  · have hcount := h.count_value
    have hfilled : filled slot ≤ 1 := by
      unfold filled
      split <;> decide
    exact Nat.le_trans (Nat.le_of_eq hcount) hfilled
  · rintro early ⟨late, rfl⟩
    obtain ⟨slot', h⟩ := h.of_append
    have hcount := h.count_begin
    have hmarked : marked slot' ≤ 1 := by
      unfold marked
      split <;> decide
    exact Nat.le_trans (Nat.le_of_eq hcount) (Nat.add_le_add_left hmarked _)

end Slot.Follows

theorem Dialogue.Always.of_map {P : β → Prop} {d : Dialogue α} {f : α → β}
    (h : (d.bind fun a => .done (f a)).Always P) : d.Always fun a => P (f a) := by
  induction d with
  | done a => exact h
  | print text next ih => exact fun answer => ih answer (h answer)
  | readLine next ih => exact fun answer => ih answer (h answer)
  | rand bound next ih => exact fun answer => ih answer (h answer)

theorem Dialogue.Always.and {P Q : α → Prop} {d : Dialogue α} (hP : d.Always P)
    (hQ : d.Always Q) : d.Always fun a => P a ∧ Q a := by
  induction d with
  | done a => exact ⟨hP, hQ⟩
  | print text next ih => exact fun answer => ih answer (hP answer) (hQ answer)
  | readLine next ih => exact fun answer => ih answer (hP answer) (hQ answer)
  | rand bound next ih => exact fun answer => ih answer (hP answer) (hQ answer)

def Dialogue.result? : Dialogue α → Option α
  | done a => some a
  | _ => none

theorem Dialogue.eq_done_of_result? {d : Dialogue α} {a : α} (h : d.result? = some a) :
    d = .done a := by
  cases d <;> cases h
  rfl

namespace Program

open Eval

/-- A function of the host, or a declared one. -/
def HasFunction (p : Program) : Callable → Prop
  | .builtin _ => True
  | .global label => ¬ p.NoFunction label

/-- The end of an evaluation from the memo `m`, with its history. -/
structure Accounts (p : Program) (Q : α → Prop) (m : Memo)
    (r : (Outcome α × Memo) × List Entry) : Prop where
  outcome : r.1.1.Meets (fun _ => True) Q
  values : r.1.2.Holds fun _ v => v.Only p.HasFunction
  slots : ∀ name, p.NoFunction name → Slot.Follows name (m.lookup name) r.2 (r.1.2.lookup name)

namespace Accounts

variable {p : Program} {Q R : Value → Prop} {name : String} {m m' : Memo}
  {outcome outcome' : Outcome Value} {log : List Entry} (hnew : m.lookup name = none)
  (hmarked : m'.lookup name = some .evaluating)
include hnew hmarked

theorem remembered {v : Value} (h : p.Accounts (Value.Only p.HasFunction)
      (m.insert name .evaluating) ((.value v, m'), log)) :
    p.Accounts (Value.Only p.HasFunction) m
      ((.value v, m'.insert name (.ready v)), .begins name :: log ++ [.ends name (some v)]) := by
  refine ⟨h.outcome, h.values.insert fun w hw => ?_, fun other hother => ?_⟩
  · cases hw
    exact h.outcome
  · refine .computation hnew hmarked ?_ (fun other hother => ?_) (h.slots other hother)
    · rw [Memo.lookup_insert, if_pos rfl]
      exact .value (.nil _)
    · rw [Memo.lookup_insert, if_neg hother]

theorem failed (houtcome : outcome'.Meets (fun _ => True) Q)
    (h : p.Accounts R (m.insert name .evaluating) ((outcome, m'), log)) :
    p.Accounts Q m ((outcome', m'.erase name), .begins name :: log ++ [.ends name none]) := by
  refine ⟨houtcome, h.values.erase name, fun other hother => ?_⟩
  refine .computation hnew hmarked ?_ (fun other hother => ?_) (h.slots other hother)
  · rw [Memo.lookup_erase, if_pos rfl]
    exact .failure (.nil _)
  · rw [Memo.lookup_erase, if_neg hother]

end Accounts

end Program

namespace Recorded

open Program

/-- From the memo `m`, the recorded evaluation is the evaluation `y` with a history that accounts
for the slots of all values. -/
def RecordsFrom (p : Program) (Q : α → Prop) (m : Memo) (x : Recorded α) (y : Eval α) : Prop :=
  (x m).bind (fun r => .done r.1) = y m ∧ (x m).Always (p.Accounts Q m)

def Records (p : Program) (Q : α → Prop) (x : Recorded α) (y : Eval α) : Prop :=
  ∀ m, m.Holds (fun _ v => v.Only p.HasFunction) → RecordsFrom p Q m x y

theorem silent_bind {x : Eval α} {m m' : Memo} {a : α} (hx : x m = .done (.value a, m'))
    (f : α → Recorded β) : (silent x >>= f) m = f a m' := by
  change ((x m).bind _).bind _ = f a m'
  rw [hx]
  exact Dialogue.bind_done (f a m')

namespace Records

variable {p : Program} {Q : α → Prop} {R : β → Prop}

theorem pure {a : α} (h : Q a) : Records p Q (Pure.pure a) (Pure.pure a) :=
  fun _ hm => ⟨rfl, h, hm, fun _ _ => .nil _⟩

theorem silent {y : Eval α} (h : ∀ m, Eval.Coincide (· = m) (fun _ => True) Q y y) :
    Records p Q (Recorded.silent y) y := by
  intro m hm
  constructor
  · rw [Recorded.silent, Dialogue.bind_assoc]
    exact Dialogue.bind_done (y m)
  · apply (h m m rfl).2.bind
    rintro ⟨outcome, _⟩ ⟨houtcome, rfl⟩
    exact ⟨houtcome, hm, fun name _ => .nil _⟩

theorem bind {x : Recorded α} {y : Eval α} {f : α → Recorded β} {g : α → Eval β}
    (hx : Records p Q x y) (hf : ∀ a, Q a → Records p R (f a) (g a)) :
    Records p R (x >>= f) (y >>= g) := by
  intro m hm
  obtain ⟨hsame, hends⟩ := hx m hm
  constructor
  · change ((x m).bind _).bind _ = (y m).bind _
    rw [← hsame, Dialogue.bind_assoc, Dialogue.bind_assoc]
    apply hends.bind_congr
    rintro ⟨⟨outcome, m'⟩, log⟩ hr
    cases outcome with
    | value a =>
      obtain ⟨hsame, _⟩ := hf a hr.outcome m' hr.values
      change ((f a m').bind _).bind _ = g a m'
      rw [← hsame, Dialogue.bind_assoc]
      rfl
    | error e => rfl
    | outOfFuel => rfl
  · apply hends.bind
    rintro ⟨⟨outcome, m'⟩, log⟩ hr
    cases outcome with
    | value a =>
      apply (hf a hr.outcome m' hr.values).2.bind
      rintro r' hr'
      refine ⟨hr'.outcome, hr'.values, fun name hname => ?_⟩
      exact (hr.slots name hname).append (hr'.slots name hname)
    | error e => exact ⟨trivial, hr.values, hr.slots⟩
    | outOfFuel => exact ⟨trivial, hr.values, hr.slots⟩

theorem stepwise : Eval.Stepwise (ι := Unit)
    fun Q (x : Recorded _) (y : Unit → Eval _) => Records p Q x (y ()) where
  pure h := pure h
  lift hok _ _ := .silent fun _ => .lift hok fun _ _ => trivial
  bind hx hf := bind hx hf

/-- The body of a function leaves the slots of values alone. -/
theorem body {Q : Value → Prop} {x : Recorded Value} {y : Eval Value} {label : String}
    (hlabel : ¬ p.NoFunction label) (hx : Records p Q x y) :
    Records p Q (Recorded.body label x) y := by
  intro m hm
  obtain ⟨hsame, hends⟩ := hx m hm
  constructor
  · rw [Recorded.body, Dialogue.bind_assoc]
    exact hsame
  · apply hends.bind
    rintro r hr
    refine ⟨hr.outcome, hr.values, fun name hname => ?_⟩
    have hother : label ≠ name := by
      rintro rfl
      exact hlabel hname
    exact .other hother ((hr.slots name hname).append (.other hother (.nil _)))

theorem remember {x : Recorded Value} {y : Eval Value} {name : String} {m : Memo}
    (hm : m.Holds fun _ v => v.Only p.HasFunction) (hnew : m.lookup name = none)
    (hx : Records p (Value.Only p.HasFunction) x y)
    (hy : (y (m.insert name .evaluating)).Always fun r =>
      p.Advances (m.insert name .evaluating) r.2) :
    RecordsFrom p (Value.Only p.HasFunction) m
      (Recorded.remember name (Recorded.body name x)) (Eval.remember name y) := by
  have hmark : (m.insert name .evaluating).Holds fun _ v => v.Only p.HasFunction :=
    hm.insert fun v hv => by cases hv
  obtain ⟨hsame, hends⟩ := hx _ hmark
  constructor
  · rw [Recorded.remember, Recorded.body, Eval.remember, ← hsame, Dialogue.bind_assoc,
      Dialogue.bind_assoc, Dialogue.bind_assoc]
    apply hends.bind_congr
    rintro ⟨⟨outcome, m'⟩, log⟩ _
    cases outcome <;> rfl
  · rw [← hsame] at hy
    rw [Recorded.remember, Recorded.body, Dialogue.bind_assoc]
    apply (hends.and hy.of_map).bind
    rintro ⟨⟨outcome, m'⟩, log⟩ ⟨hr, hadvances⟩
    have hmarked : m'.lookup name = some .evaluating :=
      (hadvances.marks name).2 ((m.marks_insert_evaluating name name).2 (.inl rfl))
    cases outcome with
    | value v => exact .remembered hnew hmarked hr
    | error e => exact .failed hnew hmarked trivial hr
    | outOfFuel => exact .failed hnew hmarked trivial hr

end Records

end Recorded

namespace Program

open Eval Recorded

/-- With fuel `n`, recorded evaluation is evaluation with its history, as long as all functions that
it meets are functions of the program. -/
structure RecordsAt (p : Program) (n : Nat) : Prop where
  eval : ∀ env e, env.Only p.HasFunction →
    Records p (Value.Only p.HasFunction) (p.evalRecorded n env e) (p.eval n env e)
  global : ∀ name pos,
    Records p (Value.Only p.HasFunction) (p.globalRecorded n name pos) (p.global n name pos)
  call : ∀ f args pos, f.Only p.HasFunction → Value.AllOnly p.HasFunction args →
    Records p (Value.Only p.HasFunction) (p.callRecorded n f args pos) (p.call n f args pos)

namespace RecordsAt

variable {p : Program} {n : Nat}

theorem eval_succ (h : p.RecordsAt n) {env : Env} (henv : env.Only p.HasFunction) (e : Expr) :
    Records p (Value.Only p.HasFunction) (p.evalRecorded (n + 1) env e) (p.eval (n + 1) env e) := by
  rw [Program.eval, evalRecorded]
  apply Records.stepwise.evalStep (K := fun _ => True) (fun _ => p.eval n) (fun _ => p.global n)
    (fun _ => p.call n) _ _ h.call henv fun _ _ => trivial
  · intro env e henv _
    exact h.eval env e henv
  · intro name pos _
    exact h.global name pos

theorem global_succ (h : p.RecordsAt n) (name : String) (pos : Position) :
    Records p (Value.Only p.HasFunction) (p.globalRecorded (n + 1) name pos)
      (p.global (n + 1) name pos) := by
  intro m hm
  rw [RecordsFrom, globalRecorded, Program.global, slot?_bind, silent_bind rfl]
  cases hslot : m.lookup name with
  | some slot =>
    cases slot with
    | ready v => exact Records.pure (hm name v hslot) m hm
    | evaluating => exact Records.silent (fun _ => .fail trivial) m hm
  | none =>
    have hvalue : RecordsFrom p (Value.Only p.HasFunction) m
        (silent (declared p name pos) >>= fun d =>
          Recorded.remember name (Recorded.body name (p.evalRecorded n [] d.body)))
        (declared p name pos >>= fun d => Eval.remember name (p.eval n [] d.body)) := by
      cases hd : p.find? name with
      | none =>
        simp only [declared, hd]
        exact Records.bind (Q := fun _ => False) (.silent fun _ => .fail trivial)
          (fun _ h => h.elim) m hm
      | some d =>
        have hdeclared : declared p name pos = pure d := by
          rw [declared, hd]
        rw [hdeclared, RecordsFrom, silent_bind rfl]
        exact Records.remember hm hslot (h.eval [] d.body .nil) (p.eval_advances n _ [] d.body)
    cases ht : p.globals.lookup name with
    | none => exact hvalue
    | some t =>
      cases t with
      | fn ret params names generics =>
        have hname : ¬ p.NoFunction name := fun hno => hno _ _ _ _ ht
        refine Records.pure ?_ m hm
        rw [Callable.ofName]
        split
        · trivial
        · exact hname
      | _ => exact hvalue

theorem call_succ (h : p.RecordsAt n) (f : Value) (args : List Value) (pos : Position)
    (hf : f.Only p.HasFunction) (hargs : Value.AllOnly p.HasFunction args) :
    Records p (Value.Only p.HasFunction) (p.callRecorded (n + 1) f args pos)
      (p.call (n + 1) f args pos) := by
  rw [Program.call, callRecorded]
  apply Records.stepwise.callStep (fun _ _ => p.eval n) _ (fun _ _ => rfl) _ hf hargs
  · intro b _
    exact .silent fun _ => .builtin (fun _ _ => trivial) b args pos
  · intro label d env hlabel _ henv
    exact .body hlabel (h.eval env d.body henv)

end RecordsAt

theorem recordsAt (p : Program) (n : Nat) : p.RecordsAt n := by
  have hfuel : Records p (Value.Only p.HasFunction) (silent outOfFuel) outOfFuel :=
    .silent fun _ => .outOfFuel
  induction n with
  | zero => exact ⟨fun _ _ _ => hfuel, fun _ _ => hfuel, fun _ _ _ _ _ => hfuel⟩
  | succ n ih => exact ⟨fun _ e henv => ih.eval_succ henv e, ih.global_succ, ih.call_succ⟩

theorem start_records (p : Program) (n : Nat) (args : List String) :
    Records p (fun _ => True) (p.startRecorded n args) (p.start n args) := by
  exact Records.stepwise.startStep (fun _ => p.global n) (fun _ => p.call n) args
    ((p.recordsAt n).global mainLabel p.mainPos) fun f args => (p.recordsAt n).call f args p.mainPos

/-- However an evaluation, the use of a global or a call ends, the memo has kept every value and the
marks are those from before, and no function has come in. So in every run, which is the same with
its history, the body of a name that is no function has at most one evaluation that ends in a value,
and at no time two that have begun and not ended. -/
theorem memo_advances (p : Program) (fuel : Nat) :
    (∀ m env e, (p.eval fuel env e m).Always fun r => p.Advances m r.2) ∧
    (∀ m name pos, (p.global fuel name pos m).Always fun r => p.Advances m r.2) ∧
    (∀ m f args pos, (p.call fuel f args pos m).Always fun r => p.Advances m r.2) ∧
    ∀ args, (p.runRecorded fuel args).bind (fun r => .done r.1) = p.run fuel args ∧
      (p.runRecorded fuel args).Always fun r => ∀ name, p.NoFunction name →
        r.2.countP (Entry.isValue name) ≤ 1 ∧
        ∀ early, early <+: r.2 →
          early.countP (Entry.isBegin name) ≤ early.countP (Entry.isEnd name) + 1 := by
  refine ⟨fun m env e => p.eval_advances fuel m env e,
    fun m name pos => p.global_advances fuel m name pos,
    fun m f args pos => p.call_advances fuel m f args pos, fun args => ?_⟩
  obtain ⟨hsame, hends⟩ := p.start_records fuel args [] .nil
  constructor
  · rw [runRecorded, run, ← hsame, Dialogue.bind_assoc, Dialogue.bind_assoc]
    rfl
  · apply hends.bind
    exact fun r hr name hname => (hr.slots name hname).once

/-- Both the call and its argument use `base`. -/
def shared : String :=
  "base: Int = 6 * 7\n" ++
    "add(n: Int): Int = n + base\n" ++
    "main(args: [[Int]]): Int = add(base)\n"

theorem memo_advances_shared :
    ∃ ds p outcome log, Decl.ofSource shared = .ok ds ∧ check ds = .ok p ∧
      p.NoFunction "base" ∧ p.runRecorded 20 [] = .done (outcome, log) ∧
      log.countP (Entry.isValue "base") = 1 := by
  have hrun : ((ofSource? shared).bind fun p => (p.runRecorded 20 []).result?.map fun r =>
      (p.globals.lookup "base").any (Ty.equiv .int) && r.2.any (Entry.isValue "base")) =
      some true := by
    decide +kernel
  obtain ⟨p, hp, hrun⟩ := Option.bind_eq_some_iff.1 hrun
  obtain ⟨⟨outcome, log⟩, hrun, hfacts⟩ := Option.map_eq_some_iff.1 hrun
  obtain ⟨hbase, hvalue⟩ := Bool.and_eq_true_iff.1 hfacts
  obtain ⟨ds, hds, hp⟩ := ofSource?_eq_some hp
  have hname : p.NoFunction "base" := by
    intro ret params names generics hlookup
    rw [hlookup] at hbase
    cases hbase
  have hrun := Dialogue.eq_done_of_result? hrun
  have honce := ((memo_advances p 20).2.2.2 []).2
  rw [hrun] at honce
  have hpos := List.countP_pos_iff.2 (List.any_eq_true.1 hvalue)
  exact ⟨ds, p, outcome, log, hds, hp, hname, hrun,
    Nat.le_antisymm (honce "base" hname).1 hpos⟩

end Program

end ExprLang

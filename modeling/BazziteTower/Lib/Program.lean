import Mathlib.Data.List.Basic
import Mathlib.Logic.Relation

/-!
# Programs that call a host which may fail

A `Prog` is a finite tree of calls to a host, one branch for every answer, so a
Python function that opens files, runs commands and raises exceptions is written
as an ordinary `do` block.  The host answers a call from its own state.  Around
every call the environment may move first, and the call may then raise without
effect or raise after it took effect; a list of such choices drives a run, and a
list that ends early is a process killed between two calls.

`wp` is the weakest precondition of a program against all of that: every call
keeps a guarantee, and every outcome satisfies a postcondition.  `wp_run` turns
it into a statement about runs, killed ones included.

## Main definitions

* `Prog`, `Prog.handle` — programs, and sequencing on the outcome.
* `Host`, `Choice`, `Host.act` — one call under one choice of the environment.
* `Prog.run`, `Prog.steps`, `Prog.exec` — runs, their calls, and the faultless run.
* `Prog.wp` — the weakest precondition, with `wp_run` its adequacy.
* `Session`, `Trail` — sequences of runs, each possibly cut short.
-/

/-- A program over host calls `O` with answers `R` that raises `ε`: an outcome,
or a call together with the rest of the program for every answer. -/
inductive Prog (O : Type) (R : O → Type) (ε α : Type) : Type
  | done (outcome : Except ε α)
  | call (o : O) (next : Except ε (R o) → Prog O R ε α)

/-- How a call is struck by a failure: not at all, before it has any effect, or
after it took effect. -/
inductive Fault (φ : Type)
  | none
  | before (failure : φ)
  | after (failure : φ)
  deriving DecidableEq, Repr

/-- The call takes effect. -/
def Fault.effective {φ : Type} : Fault φ → Bool
  | .before _ => false
  | _ => true

/-- What the environment does around one call: it moves the state first, and then
may strike the call. -/
structure Choice (φ W : Type) where
  interfere : W → W
  fault : Fault φ

/-- The state the call itself starts from. -/
abbrev Choice.entry {φ W : Type} (c : Choice φ W) (w : W) : W := c.interfere w

/-- The choice that leaves the state alone and lets the call go through. -/
def Choice.calm {φ W : Type} : Choice φ W := ⟨id, .none⟩

/-- A host with state `W`: what each call does, and what an injected failure raises. -/
structure Host (O : Type) (R : O → Type) (ε φ W : Type) where
  perform : (o : O) → W → Except ε (R o) × W
  raises : φ → ε

variable {O : Type} {R : O → Type} {ε φ W α β γ : Type}

/-- One call under one choice. -/
def Host.act (h : Host O R ε φ W) (c : Choice φ W) (o : O) (w : W) : Except ε (R o) × W :=
  match c.fault with
  | .none => h.perform o (c.interfere w)
  | .before e => (.error (h.raises e), c.interfere w)
  | .after e => (.error (h.raises e), (h.perform o (c.interfere w)).2)

@[simp] theorem Host.act_calm (h : Host O R ε φ W) (o : O) (w : W) :
    h.act .calm o w = h.perform o w := rfl

namespace Prog

/-- Continue with the outcome of `p`, returned or raised. -/
def handle : Prog O R ε α → (Except ε α → Prog O R ε β) → Prog O R ε β
  | .done r, f => f r
  | .call o k, f => .call o fun r => (k r).handle f

/-- Continue with the value of `p`; an exception passes through. -/
def bind (p : Prog O R ε α) (f : α → Prog O R ε β) : Prog O R ε β :=
  p.handle fun
    | .ok a => f a
    | .error e => .done (.error e)

/-- Run `p`; an exception is given to `f`. -/
def recover (p : Prog O R ε α) (f : ε → Prog O R ε α) : Prog O R ε α :=
  p.handle fun
    | .ok a => .done (.ok a)
    | .error e => f e

/-- Run `p` and then `cleanup`, whatever the outcome of `p`, as a `finally` block
does; an exception of `cleanup` replaces that outcome. -/
def ensuring (p : Prog O R ε α) (cleanup : Prog O R ε Unit) : Prog O R ε α :=
  p.handle fun r => cleanup.bind fun _ => .done r

/-- A single call. -/
def perform (o : O) : Prog O R ε (R o) := .call o .done

/-- A computation that makes no call. -/
def lift (r : Except ε α) : Prog O R ε α := .done r

instance : Monad (Prog O R ε) where
  pure a := .done (.ok a)
  bind := bind

instance : MonadExceptOf ε (Prog O R ε) where
  throw e := .done (.error e)
  tryCatch := recover

@[simp] theorem pure_eq (a : α) : (pure a : Prog O R ε α) = .done (.ok a) := rfl
@[simp] theorem bind_eq (p : Prog O R ε α) (f : α → Prog O R ε β) : p >>= f = p.bind f := rfl
@[simp] theorem throw_eq (e : ε) : (throw e : Prog O R ε α) = .done (.error e) := rfl
@[simp] theorem tryCatch_eq (p : Prog O R ε α) (f : ε → Prog O R ε α) :
    tryCatch p f = p.recover f := rfl

@[simp] theorem handle_done (r : Except ε α) (f : Except ε α → Prog O R ε β) :
    (done r).handle f = f r := rfl
@[simp] theorem bind_ok (a : α) (f : α → Prog O R ε β) :
    (done (.ok a) : Prog O R ε α).bind f = f a := rfl
@[simp] theorem bind_error (e : ε) (f : α → Prog O R ε β) :
    (done (.error e) : Prog O R ε α).bind f = done (.error e) := rfl
@[simp] theorem recover_ok (a : α) (f : ε → Prog O R ε α) :
    (done (.ok a) : Prog O R ε α).recover f = done (.ok a) := rfl
@[simp] theorem recover_error (e : ε) (f : ε → Prog O R ε α) :
    (done (.error e) : Prog O R ε α).recover f = f e := rfl

theorem handle_assoc (p : Prog O R ε α) (f : Except ε α → Prog O R ε β)
    (g : Except ε β → Prog O R ε γ) :
    (p.handle f).handle g = p.handle fun r => (f r).handle g := by
  induction p with
  | done r => rfl
  | call o k ih => simp only [handle, ih]

theorem bind_assoc (p : Prog O R ε α) (f : α → Prog O R ε β) (g : β → Prog O R ε γ) :
    (p.bind f).bind g = p.bind fun a => (f a).bind g := by
  rw [bind, bind, bind, handle_assoc]
  congr 1
  funext r
  cases r <;> rfl

theorem lawfulMonad : LawfulMonad (Prog O R ε) := by
  refine .mk' _ (fun p => ?_) (fun _ _ => rfl) bind_assoc
  change p.bind (fun a => done (.ok a)) = p
  induction p with
  | done r => cases r <;> rfl
  | call o k ih => exact congrArg (call o) (funext ih)

theorem mapM_cons (f : α → Prog O R ε β) (x : α) (xs : List α) :
    (x :: xs).mapM f = (f x).bind fun b => (xs.mapM f).bind fun bs => done (.ok (b :: bs)) :=
  haveI : LawfulMonad (Prog O R ε) := lawfulMonad
  List.mapM_cons

/-! ## Runs -/

section Runs
variable (h : Host O R ε φ W)

/-- Run against a list of choices, one for each call.  The outcome is `none` when
the list ends first: the process is killed before its next call. -/
def run : Prog O R ε α → List (Choice φ W) → W → Option (Except ε α) × W
  | .done r, _, w => (some r, w)
  | .call _ _, [], w => (none, w)
  | .call o k, c :: cs, w => run (k (h.act c o w).1) cs (h.act c o w).2

/-- One call of a run: what was called, under which choice, and in which state. -/
structure Step (O φ W : Type) where
  op : O
  choice : Choice φ W
  world : W

/-- The calls that a run makes, in order. -/
def steps : Prog O R ε α → List (Choice φ W) → W → List (Step O φ W)
  | .done _, _, _ => []
  | .call _ _, [], _ => []
  | .call o k, c :: cs, w => ⟨o, c, w⟩ :: steps (k (h.act c o w).1) cs (h.act c o w).2

/-- The run without any fault or interference. -/
def exec : Prog O R ε α → W → Except ε α × W
  | .done r, w => (r, w)
  | .call o k, w => exec (k (h.perform o w).1) (h.perform o w).2

@[simp] theorem run_done (r : Except ε α) (cs : List (Choice φ W)) (w : W) :
    run h (.done r) cs w = (some r, w) := by
  cases cs <;> rfl

@[simp] theorem run_nil (p : Prog O R ε α) (w : W) : (run h p [] w).2 = w := by
  cases p <;> rfl

@[simp] theorem exec_done (r : Except ε α) (w : W) : exec h (.done r) w = (r, w) := rfl

@[simp] theorem exec_perform (o : O) (w : W) : exec h (perform o) w = h.perform o w := rfl

theorem exec_handle (p : Prog O R ε α) (f : Except ε α → Prog O R ε β) (w : W) :
    exec h (p.handle f) w = exec h (f (exec h p w).1) (exec h p w).2 := by
  induction p generalizing w with
  | done r => rfl
  | call o k ih => exact ih _ _

/-- Enough calls that go through make up the faultless run. -/
theorem exists_run_eq_exec (p : Prog O R ε α) (w : W) :
    ∃ n, run h p (List.replicate n .calm) w = (some (exec h p w).1, (exec h p w).2) := by
  induction p generalizing w with
  | done r => exact ⟨0, rfl⟩
  | call o k ih =>
    obtain ⟨n, hn⟩ := ih (h.perform o w).1 (h.perform o w).2
    exact ⟨n + 1, hn⟩

/-- Every call of the faultless run satisfies `A` where it is made. -/
def along (A : O → W → Prop) : Prog O R ε α → W → Prop
  | .done _, _ => True
  | .call o k, w => A o w ∧ along A (k (h.perform o w).1) (h.perform o w).2

instance along.decidable {A : O → W → Prop} [∀ o w, Decidable (A o w)] :
    (p : Prog O R ε α) → (w : W) → Decidable (along h A p w)
  | .done _, _ => .isTrue trivial
  | .call o k, w =>
    have : Decidable (along h A (k (h.perform o w).1) (h.perform o w).2) := along.decidable _ _
    inferInstanceAs (Decidable (A o w ∧ along h A (k (h.perform o w).1) (h.perform o w).2))

theorem along_handle {A : O → W → Prop} (p : Prog O R ε α) (f : Except ε α → Prog O R ε β) (w : W) :
    along h A (p.handle f) w ↔ along h A p w ∧ along h A (f (exec h p w).1) (exec h p w).2 := by
  induction p generalizing w with
  | done r => exact ⟨fun hf => ⟨trivial, hf⟩, And.right⟩
  | call o k ih => exact (and_congr_right fun _ => ih _ _).trans and_assoc.symm

/-- Without a fault the program has this outcome and leaves the state alone. -/
def Answers (p : Prog O R ε α) (r : Except ε α) (w : W) : Prop := exec h p w = (r, w)

variable {h}

theorem exec_bind_ok {p : Prog O R ε α} {f : α → Prog O R ε β} {w v : W} {a : α}
    (hp : exec h p w = (.ok a, v)) : exec h (p.bind f) w = exec h (f a) v := by
  rw [bind, exec_handle, hp]

theorem exec_bind_error {p : Prog O R ε α} {f : α → Prog O R ε β} {w v : W} {e : ε}
    (hp : exec h p w = (.error e, v)) : exec h (p.bind f) w = (.error e, v) := by
  rw [bind, exec_handle, hp]
  rfl

theorem along_bind_ok {A : O → W → Prop} {p : Prog O R ε α} {f : α → Prog O R ε β} {w v : W} {a : α}
    (hp : exec h p w = (.ok a, v)) :
    along h A (p.bind f) w ↔ along h A p w ∧ along h A (f a) v := by
  rw [bind, along_handle, hp]

theorem exec_ensuring {p : Prog O R ε α} {f : Prog O R ε Unit} {w v u : W} {r : Except ε α}
    (hp : exec h p w = (r, v)) (hf : exec h f v = (.ok (), u)) :
    exec h (p.ensuring f) w = (r, u) := by
  rw [ensuring, exec_handle, hp]
  exact exec_bind_ok hf

theorem answers_done (r : Except ε α) (w : W) : Answers h (done r) r w := rfl

theorem answers_bind {p : Prog O R ε α} {f : α → Prog O R ε β} {r : Except ε α}
    {g : α → Except ε β} {w : W} (hp : Answers h p r w) (hf : ∀ a, r = .ok a → Answers h (f a) (g a) w) :
    Answers h (p.bind f) (r >>= g) w := by
  cases r with
  | ok a => exact (exec_bind_ok hp).trans (hf a rfl)
  | error e => exact exec_bind_error hp

theorem answers_bind_ok {p : Prog O R ε α} {f : α → Prog O R ε β} {a : α} {r : Except ε β} {w : W}
    (hp : Answers h p (.ok a) w) (hf : Answers h (f a) r w) : Answers h (p.bind f) r w :=
  (exec_bind_ok hp).trans hf

/-- What follows an inspection, when the whole returns. -/
theorem exec_bind_eq_ok {p : Prog O R ε α} {f : α → Prog O R ε β} {r : Except ε α} {w v : W} {b : β}
    (hp : Answers h p r w) (hb : exec h (p.bind f) w = (.ok b, v)) :
    ∃ a, r = .ok a ∧ exec h (f a) w = (.ok b, v) := by
  cases r with
  | ok a => exact ⟨a, rfl, (exec_bind_ok hp).symm.trans hb⟩
  | error e =>
    have herr := (exec_bind_error (f := f) hp).symm.trans hb
    cases herr

theorem answers_recover_ok {p : Prog O R ε α} {f : ε → Prog O R ε α} {a : α} {w : W}
    (hp : Answers h p (.ok a) w) : Answers h (p.recover f) (.ok a) w := by
  rw [Answers, recover, exec_handle, hp]
  rfl

theorem answers_recover_error {p : Prog O R ε α} {f : ε → Prog O R ε α} {e : ε} {r : Except ε α}
    {w : W} (hp : Answers h p (.error e) w) (hf : Answers h (f e) r w) :
    Answers h (p.recover f) r w := by
  rw [Answers, recover, exec_handle, hp]
  exact hf

theorem answers_recover {p : Prog O R ε α} {f : ε → Prog O R ε α} {r : Except ε α}
    {g : ε → Except ε α} {w : W} (hp : Answers h p r w) (hf : ∀ e, Answers h (f e) (g e) w) :
    Answers h (p.recover f) (tryCatch r g) w := by
  cases r with
  | ok a => exact answers_recover_ok hp
  | error e => exact answers_recover_error hp (hf e)

theorem answers_ite {c : Prop} [Decidable c] {p q : Prog O R ε α} {r s : Except ε α} {w : W}
    (hp : Answers h p r w) (hq : Answers h q s w) :
    Answers h (if c then p else q) (if c then r else s) w := by
  split
  · exact hp
  · exact hq

variable (h)

/-- A run of `p` and what follows it: the later choices go to the rest. -/
theorem run_handle (p : Prog O R ε α) (f : Except ε α → Prog O R ε β) (cs : List (Choice φ W))
    (w : W) : run h (p.handle f) cs w =
      match (run h p cs w).1 with
      | none => (none, (run h p cs w).2)
      | some r => run h (f r) (cs.drop (steps h p cs w).length) (run h p cs w).2 := by
  induction p generalizing cs w with
  | done r => cases cs <;> simp [handle, run, steps]
  | call o k ih =>
    cases cs with
    | nil => rfl
    | cons c cs => exact ih _ cs _

/-- The choices that are left once a program has run. -/
def rest (p : Prog O R ε α) (cs : List (Choice φ W)) (w : W) : List (Choice φ W) :=
  cs.drop (steps h p cs w).length

theorem run_recover_of_error {p : Prog O R ε α} {f : ε → Prog O R ε α} {cs : List (Choice φ W)} {w : W}
    {e : ε} (he : (run h p cs w).1 = some (.error e)) :
    run h (p.recover f) cs w = run h (f e) (rest h p cs w) (run h p cs w).2 := by
  rw [recover, run_handle, he]
  rfl

theorem run_bind_of_ok {p : Prog O R ε α} {f : α → Prog O R ε β} {cs : List (Choice φ W)} {w : W}
    {a : α} (ha : (run h p cs w).1 = some (.ok a)) :
    run h (p.bind f) cs w = run h (f a) (rest h p cs w) (run h p cs w).2 := by
  rw [bind, run_handle, ha]
  rfl

theorem run_bind_of_error {p : Prog O R ε α} {f : α → Prog O R ε β} {cs : List (Choice φ W)} {w : W}
    {e : ε} (he : (run h p cs w).1 = some (.error e)) :
    run h (p.bind f) cs w = (some (.error e), (run h p cs w).2) := by
  rw [bind, run_handle, he]
  exact run_done h _ _ _

theorem run_bind_of_none {p : Prog O R ε α} {f : α → Prog O R ε β} {cs : List (Choice φ W)} {w : W}
    (hp : (run h p cs w).1 = none) : (run h (p.bind f) cs w).1 = none := by
  rw [bind, run_handle, hp]

/-- The calls of a sequence on the outcome: those of its first part, and of the rest. -/
theorem steps_handle (p : Prog O R ε α) (f : Except ε α → Prog O R ε β) (cs : List (Choice φ W))
    (w : W) : steps h (p.handle f) cs w = steps h p cs w ++
      match (run h p cs w).1 with
      | none => []
      | some r => steps h (f r) (cs.drop (steps h p cs w).length) (run h p cs w).2 := by
  induction p generalizing cs w with
  | done r => cases cs <;> simp [handle, run, steps]
  | call o k ih =>
    cases cs with
    | nil => rfl
    | cons c cs =>
      simp only [handle, steps, run, List.cons_append, List.length_cons, List.drop_succ_cons]
      rw [ih]

theorem steps_subset_recover (p : Prog O R ε α) (f : ε → Prog O R ε α) (cs : List (Choice φ W))
    (w : W) : steps h p cs w ⊆ steps h (p.recover f) cs w := by
  rw [recover, steps_handle]
  exact List.subset_append_left ..

theorem steps_subset_bind (p : Prog O R ε α) (f : α → Prog O R ε β) (cs : List (Choice φ W))
    (w : W) : steps h p cs w ⊆ steps h (p.bind f) cs w := by
  rw [bind, steps_handle]
  exact List.subset_append_left ..

theorem steps_subset_recover_of_error {p : Prog O R ε α} {f : ε → Prog O R ε α}
    {cs : List (Choice φ W)} {w : W} {e : ε} (he : (run h p cs w).1 = some (.error e)) :
    steps h (f e) (rest h p cs w) (run h p cs w).2 ⊆ steps h (p.recover f) cs w := by
  rw [recover, steps_handle, he]
  exact List.subset_append_right ..

theorem steps_subset_bind_of_ok {p : Prog O R ε α} {f : α → Prog O R ε β} {cs : List (Choice φ W)}
    {w : W} {a : α} (ha : (run h p cs w).1 = some (.ok a)) :
    steps h (f a) (rest h p cs w) (run h p cs w).2 ⊆ steps h (p.bind f) cs w := by
  rw [bind, steps_handle, ha]
  exact List.subset_append_right ..

/-- A sequence that returns: what its first part returned, and what the rest then did. -/
theorem run_bind_eq_ok {p : Prog O R ε α} {f : α → Prog O R ε β} {cs : List (Choice φ W)} {w : W}
    {b : β} (hb : (run h (p.bind f) cs w).1 = some (.ok b)) :
    ∃ a, (run h p cs w).1 = some (.ok a) ∧
      (run h (f a) (cs.drop (steps h p cs w).length) (run h p cs w).2).1 = some (.ok b) := by
  rw [bind, run_handle] at hb
  rcases hr : (run h p cs w).1 with _ | e | a
  · rw [hr] at hb
    cases hb
  · rw [hr] at hb
    simp at hb
  · rw [hr] at hb
    exact ⟨a, rfl, hb⟩

/-- A recovered program that returns did so by itself, or its handler did. -/
theorem run_recover_eq_ok {p : Prog O R ε α} {f : ε → Prog O R ε α} {cs : List (Choice φ W)} {w : W}
    {a : α} (ha : (run h (p.recover f) cs w).1 = some (.ok a)) :
    (run h p cs w).1 = some (.ok a) ∨ ∃ e cs' v, (run h (f e) cs' v).1 = some (.ok a) := by
  rw [recover, run_handle] at ha
  rcases hr : (run h p cs w).1 with _ | e | a'
  · rw [hr] at ha
    cases ha
  · rw [hr] at ha
    exact .inr ⟨e, _, _, ha⟩
  · rw [hr] at ha
    left
    simpa using ha

/-- What holds after `p`, and after what follows if `p` returns, holds after both. -/
theorem run_bind_invariant {I : W → Prop} {p : Prog O R ε α} {f : α → Prog O R ε β}
    {cs : List (Choice φ W)} {w : W} (hp : I (run h p cs w).2)
    (hf : ∀ a, (run h p cs w).1 = some (.ok a) →
      I (run h (f a) (cs.drop (steps h p cs w).length) (run h p cs w).2).2) :
    I (run h (p.bind f) cs w).2 := by
  rw [bind, run_handle]
  rcases hr : (run h p cs w).1 with _ | e | a
  · exact hp
  · simpa using hp
  · exact hf a hr

/-- Cutting a run short only drops its later calls. -/
theorem steps_take_subset (p : Prog O R ε α) (cs : List (Choice φ W)) (w : W) (n : ℕ) :
    steps h p (cs.take n) w ⊆ steps h p cs w := by
  induction p generalizing cs w n with
  | done r => cases cs <;> simp [steps]
  | call o k ih =>
    cases cs with
    | nil => simp [steps]
    | cons c cs =>
      cases n with
      | zero => simp [steps]
      | succ n =>
        simp only [List.take_succ_cons, steps]
        exact List.cons_subset_cons _ (ih _ _ _ _)

/-- The state right after any call of a run is the final state of a shorter run. -/
theorem run_take_of_mem_steps {p : Prog O R ε α} {cs : List (Choice φ W)} {w : W}
    {s : Step O φ W} (hs : s ∈ steps h p cs w) :
    ∃ n, (run h p (cs.take n) w).2 = (h.act s.choice s.op s.world).2 := by
  induction p generalizing cs w with
  | done r => cases cs <;> simp [steps] at hs
  | call o k ih =>
    cases cs with
    | nil => simp [steps] at hs
    | cons c cs =>
      rcases List.mem_cons.mp hs with rfl | hs
      · exact ⟨1, by simp [run]⟩
      · obtain ⟨n, hn⟩ := ih _ hs
        exact ⟨n + 1, by simpa [run] using hn⟩

/-- What every call of a run keeps holds before each of its calls. -/
theorem forall_steps {I : W → Prop} {p : Prog O R ε α} {cs : List (Choice φ W)} {w : W}
    (hI : ∀ o c w, c ∈ cs → I w → I (h.act c o w).2) (hw : I w) : ∀ s ∈ steps h p cs w, I s.world := by
  induction p generalizing cs w with
  | done r => cases cs <;> simp [steps]
  | call o k ih =>
    cases cs with
    | nil => simp [steps]
    | cons c cs =>
      intro s hs
      rcases List.mem_cons.mp hs with rfl | hs
      · exact hw
      · exact ih _ (fun o c w hc => hI o c w (List.mem_cons_of_mem _ hc))
          (hI o c w (List.mem_cons_self ..) hw) s hs

/-- The choices of a run come from its list. -/
theorem choice_mem_of_mem_steps {p : Prog O R ε α} {cs : List (Choice φ W)} {w : W}
    {s : Step O φ W} (hs : s ∈ steps h p cs w) : s.choice ∈ cs := by
  induction p generalizing cs w with
  | done r => cases cs <;> simp [steps] at hs
  | call o k ih =>
    cases cs with
    | nil => simp [steps] at hs
    | cons c cs =>
      rcases List.mem_cons.mp hs with rfl | hs
      · exact List.mem_cons_self ..
      · exact List.mem_cons_of_mem _ (ih _ hs)

end Runs

/-! ## Weakest preconditions -/

section Wp
variable (h : Host O R ε φ W) (ok : O → Choice φ W → W → Prop) (G : W → W → Prop)

/-- From `w`, under every choice that `ok` admits, each call of the program
changes the state as the guarantee `G` allows, and every outcome satisfies `Q`. -/
def wp : Prog O R ε α → (Except ε α → W → Prop) → W → Prop
  | .done r, Q, w => Q r w
  | .call o k, Q, w => ∀ c, ok o c w → G (c.interfere w) (h.act c o w).2 ∧
      wp (k (h.act c o w).1) Q (h.act c o w).2

variable {h ok G}

@[simp] theorem wp_done {r : Except ε α} {Q : Except ε α → W → Prop} {w : W} :
    wp h ok G (.done r) Q w ↔ Q r w := Iff.rfl

theorem wp_mono {p : Prog O R ε α} {Q Q' : Except ε α → W → Prop} {w : W}
    (hp : wp h ok G p Q w) (hQ : ∀ r w, Q r w → Q' r w) : wp h ok G p Q' w := by
  induction p generalizing w with
  | done r => exact hQ _ _ hp
  | call o k ih => exact fun c hc => ⟨(hp c hc).1, ih _ (hp c hc).2⟩

/-- A stronger guarantee will do. -/
theorem wp_weaken {G' : W → W → Prop} {p : Prog O R ε α} {Q : Except ε α → W → Prop} {w : W}
    (hp : wp h ok G p Q w) (hG : ∀ w w', G w w' → G' w w') : wp h ok G' p Q w := by
  induction p generalizing w with
  | done r => exact hp
  | call o k ih => exact fun c hc => ⟨hG _ _ (hp c hc).1, ih _ (hp c hc).2⟩

/-- What two guarantees lead to, under the first of them. -/
theorem wp_and {G' : W → W → Prop} {p : Prog O R ε α} {Q Q' : Except ε α → W → Prop} {w : W}
    (hp : wp h ok G p Q w) (hp' : wp h ok G' p Q' w) :
    wp h ok G p (fun r v => Q r v ∧ Q' r v) w := by
  induction p generalizing w with
  | done r => exact ⟨hp, hp'⟩
  | call o k ih => exact fun c hc => ⟨(hp c hc).1, ih _ (hp c hc).2 (hp' c hc).2⟩

@[simp] theorem wp_handle {p : Prog O R ε α} {f : Except ε α → Prog O R ε β}
    {Q : Except ε β → W → Prop} {w : W} :
    wp h ok G (p.handle f) Q w ↔ wp h ok G p (fun r v => wp h ok G (f r) Q v) w := by
  induction p generalizing w with
  | done r => rfl
  | call o k ih => simp only [handle, wp, ih]

/-- What holds of every outcome in every state. -/
theorem wp_of_forall {Q : Except ε α → W → Prop} (hG : ∀ w w', G w w') (hQ : ∀ r w, Q r w)
    (p : Prog O R ε α) {w : W} : wp h ok G p Q w := by
  induction p generalizing w with
  | done r => exact hQ r w
  | call o k ih => exact fun _ _ => ⟨hG _ _, ih _⟩

/-- Sequencing through an intermediate assertion on the outcome of `p`. -/
theorem wp_bind {p : Prog O R ε α} {f : α → Prog O R ε β} {Q : Except ε β → W → Prop} {w : W}
    {P : Except ε α → W → Prop} (hp : wp h ok G p P w)
    (hok : ∀ a v, P (.ok a) v → wp h ok G (f a) Q v)
    (herr : ∀ e v, P (.error e) v → Q (.error e) v) : wp h ok G (p.bind f) Q w := by
  rw [bind, wp_handle]
  refine wp_mono hp fun r v hr => ?_
  cases r with
  | ok a => exact hok a v hr
  | error e => exact herr e v hr

theorem wp_recover {p : Prog O R ε α} {f : ε → Prog O R ε α} {Q : Except ε α → W → Prop}
    {w : W} {P : Except ε α → W → Prop} (hp : wp h ok G p P w)
    (hok : ∀ a v, P (.ok a) v → Q (.ok a) v)
    (herr : ∀ e v, P (.error e) v → wp h ok G (f e) Q v) : wp h ok G (p.recover f) Q w := by
  rw [recover, wp_handle]
  refine wp_mono hp fun r v hr => ?_
  cases r with
  | ok a => exact hok a v hr
  | error e => exact herr e v hr

theorem wp_ensuring {p : Prog O R ε α} {f : Prog O R ε Unit} {Q : Except ε α → W → Prop}
    {w : W} {P : Except ε α → W → Prop} {P' : Except ε α → Except ε Unit → W → Prop}
    (hp : wp h ok G p P w) (hf : ∀ r v, P r v → wp h ok G f (P' r) v)
    (hok : ∀ r v, P' r (.ok ()) v → Q r v)
    (herr : ∀ r e v, P' r (.error e) v → Q (.error e) v) : wp h ok G (p.ensuring f) Q w := by
  rw [ensuring, wp_handle]
  exact wp_mono hp fun r v hr => wp_bind (hf r v hr) (fun _ u hu => hok r u hu) (herr r)

/-- The three ways a call can end, each from the state the environment left. -/
theorem wp_call {o : O} {k : Except ε (R o) → Prog O R ε α} {Q : Except ε α → W → Prop} {w : W}
    (refl : ∀ v, G v v)
    (H : ∀ c, ok o c w → let v := c.interfere w
      (∀ e, wp h ok G (k (.error (h.raises e))) Q v) ∧
      G v (h.perform o v).2 ∧
      (∀ e, wp h ok G (k (.error (h.raises e))) Q (h.perform o v).2) ∧
      wp h ok G (k (h.perform o v).1) Q (h.perform o v).2) :
    wp h ok G (.call o k) Q w := by
  intro c hc
  obtain ⟨hbefore, hG, hafter, hok⟩ := H c hc
  unfold Host.act
  cases hf : c.fault with
  | none => exact ⟨hG, hok⟩
  | before e => exact ⟨refl _, hbefore e⟩
  | after e => exact ⟨hG, hafter e⟩

/-- A class of programs that sequencing does not leave. -/
structure Closed (C : ∀ ⦃α : Type⦄, Prog O R ε α → Prop) : Prop where
  done : ∀ {α : Type} (r : Except ε α), C (.done r)
  handle : ∀ {α β : Type} {p : Prog O R ε α} {f : Except ε α → Prog O R ε β}, C p → (∀ r, C (f r)) →
    C (p.handle f)

namespace Closed
variable {C : ∀ ⦃α : Type⦄, Prog O R ε α → Prop} {α β : Type}

theorem ite (_ : Closed C) {c : Prop} [Decidable c] {p q : Prog O R ε α} (hp : C p) (hq : C q) :
    C (if c then p else q) := by
  split
  · exact hp
  · exact hq

variable (hC : Closed C)
include hC

theorem bind {p : Prog O R ε α} {f : α → Prog O R ε β} (hp : C p) (hf : ∀ a, C (f a)) :
    C (p.bind f) :=
  hC.handle hp fun
    | .ok a => hf a
    | .error _ => hC.done _

theorem recover {p : Prog O R ε α} {f : ε → Prog O R ε α} (hp : C p) (hf : ∀ e, C (f e)) :
    C (p.recover f) :=
  hC.handle hp fun
    | .ok _ => hC.done _
    | .error e => hf e

theorem ensuring {p : Prog O R ε α} {f : Prog O R ε Unit} (hp : C p) (hf : C f) :
    C (p.ensuring f) :=
  hC.handle hp fun _ => hC.bind hf fun _ => hC.done _

end Closed

/-- Every call of the program is one that `A` allows. -/
def uses (A : O → Prop) : Prog O R ε α → Prop
  | .done _ => True
  | .call o k => A o ∧ ∀ r, (k r).uses A

section Uses
variable {A B : O → Prop}

@[simp] theorem uses_done {r : Except ε α} : (done r : Prog O R ε α).uses A := trivial

@[simp] theorem uses_perform {o : O} : (perform o : Prog O R ε (R o)).uses A ↔ A o :=
  ⟨fun hp => hp.1, fun ho => ⟨ho, fun _ => trivial⟩⟩

theorem uses_handle {p : Prog O R ε α} {f : Except ε α → Prog O R ε β} (hp : p.uses A)
    (hf : ∀ r, (f r).uses A) : (p.handle f).uses A := by
  induction p with
  | done r => exact hf r
  | call o k ih => exact ⟨hp.1, fun r => ih r (hp.2 r)⟩

theorem uses_bind {p : Prog O R ε α} {f : α → Prog O R ε β} (hp : p.uses A)
    (hf : ∀ a, (f a).uses A) : (p.bind f).uses A :=
  uses_handle hp fun
    | .ok a => hf a
    | .error _ => trivial

theorem uses_recover {p : Prog O R ε α} {f : ε → Prog O R ε α} (hp : p.uses A)
    (hf : ∀ e, (f e).uses A) : (p.recover f).uses A :=
  uses_handle hp fun
    | .ok _ => trivial
    | .error e => hf e

theorem uses_ensuring {p : Prog O R ε α} {f : Prog O R ε Unit} (hp : p.uses A)
    (hf : f.uses A) : (p.ensuring f).uses A :=
  uses_handle hp fun _ => uses_bind hf fun _ => trivial

theorem uses_ite {c : Prop} [Decidable c] {p q : Prog O R ε α} (hp : p.uses A) (hq : q.uses A) :
    (if c then p else q).uses A := by
  split
  · exact hp
  · exact hq

theorem uses_forM {xs : List α} {f : α → Prog O R ε PUnit} (hf : ∀ x ∈ xs, (f x).uses A) :
    (xs.forM f).uses A := by
  induction xs with
  | nil => trivial
  | cons x xs ih =>
    exact uses_bind (hf x (by simp)) fun _ => ih fun y hy => hf y (by simp [hy])

theorem uses_mapM {xs : List α} {f : α → Prog O R ε β} (hf : ∀ x ∈ xs, (f x).uses A) :
    (xs.mapM f).uses A := by
  induction xs with
  | nil => trivial
  | cons x xs ih =>
    rw [mapM_cons]
    exact uses_bind (hf x (by simp)) fun _ =>
      uses_bind (ih fun y hy => hf y (by simp [hy])) fun _ => trivial

theorem uses_closed : Closed fun _ (p : Prog O R ε _) => p.uses A :=
  ⟨fun _ => trivial, uses_handle⟩

/-- What the program returns, whatever its calls answer. -/
def returns (F : α → Prop) : Prog O R ε α → Prop
  | .done r => ∀ a, r = .ok a → F a
  | .call _ k => ∀ r, (k r).returns F

theorem returns_of_forall {F : α → Prop} (hF : ∀ a, F a) (p : Prog O R ε α) : p.returns F := by
  induction p with
  | done r => exact fun a _ => hF a
  | call o k ih => exact ih

theorem returns_bind {F : α → Prop} {F' : β → Prop} {p : Prog O R ε α} {f : α → Prog O R ε β}
    (hp : p.returns F) (hf : ∀ a, F a → (f a).returns F') : (p.bind f).returns F' := by
  induction p with
  | done r =>
    cases r with
    | ok a => exact hf a (hp a rfl)
    | error e => exact nofun
  | call o k ih => exact fun r => ih r (hp r)

theorem returns_recover {F : α → Prop} {p : Prog O R ε α} {f : ε → Prog O R ε α}
    (hp : p.returns F) (hf : ∀ e, (f e).returns F) : (p.recover f).returns F := by
  induction p with
  | done r =>
    cases r with
    | ok a => exact hp
    | error e => exact hf e
  | call o k ih => exact fun r => ih r (hp r)

theorem returns_mapM {F : α → β → Prop} {f : α → Prog O R ε β} (hf : ∀ x, (f x).returns (F x))
    (xs : List α) : (xs.mapM f).returns (List.Forall₂ F xs) := by
  induction xs with
  | nil =>
    rintro _ ⟨⟩
    exact .nil
  | cons x xs ih =>
    rw [mapM_cons]
    refine returns_bind (hf x) fun y hy => returns_bind ih fun ys hys => ?_
    rintro _ ⟨⟩
    exact .cons hy hys

theorem returns_exec {F : α → Prop} {p : Prog O R ε α} (hp : p.returns F) {w : W} {a : α}
    (ha : (exec h p w).1 = .ok a) : F a := by
  induction p generalizing w with
  | done r => exact hp a ha
  | call o k ih => exact ih _ (hp _) ha

theorem wp_returns {F : α → Prop} {p : Prog O R ε α} {Q : Except ε α → W → Prop} {w : W}
    (hp : p.returns F) (hq : wp h ok G p Q w) :
    wp h ok G p (fun r v => Q r v ∧ ∀ a, r = .ok a → F a) w := by
  induction p generalizing w with
  | done r => exact ⟨hq, hp⟩
  | call o k ih => exact fun c hc => ⟨(hq c hc).1, ih _ (hp _) (hq c hc).2⟩

theorem uses_mono {p : Prog O R ε α} (hp : p.uses A) (hAB : ∀ o, A o → B o) : p.uses B := by
  induction p with
  | done r => trivial
  | call o k ih => exact ⟨hAB _ hp.1, fun r => ih r (hp.2 r)⟩

/-- If every call is one that `A` allows and raises only what `E` admits, the program
raises only what `F` admits. -/
def raises (A : O → Prop) (E F : ε → Prop) : Prog O R ε α → Prop
  | .done r => ∀ e, r = .error e → F e
  | .call o k => A o ∧ ∀ r, (∀ e, r = .error e → E e) → (k r).raises A E F

section Raises
variable {E F F' : ε → Prop}

theorem raises_pure (a : α) : (pure a : Prog O R ε α).raises A E F := nofun

theorem raises_throw {e : ε} (he : F e) : (throw e : Prog O R ε α).raises A E F := by
  rintro _ ⟨⟩
  exact he

theorem raises_perform {o : O} (ho : A o) : (perform o : Prog O R ε (R o)).raises A E E :=
  ⟨ho, fun _ hr => hr⟩

theorem raises_handle {p : Prog O R ε α} {f : Except ε α → Prog O R ε β} (hp : p.raises A E F)
    (hf : ∀ r, (∀ e, r = .error e → F e) → (f r).raises A E F') : (p.handle f).raises A E F' := by
  induction p with
  | done r => exact hf r hp
  | call o k ih => exact ⟨hp.1, fun r hr => ih r (hp.2 r hr)⟩

theorem raises_bind {p : Prog O R ε α} {f : α → Prog O R ε β} (hp : p.raises A E F)
    (hf : ∀ a, (f a).raises A E F) : (p.bind f).raises A E F :=
  raises_handle hp fun
    | .ok a, _ => hf a
    | .error _, he => fun _ h => he _ (by cases h; rfl)

theorem raises_recover {p : Prog O R ε α} {f : ε → Prog O R ε α} (hp : p.raises A E F)
    (hf : ∀ e, F e → (f e).raises A E F') : (p.recover f).raises A E F' :=
  raises_handle hp fun
    | .ok _, _ => nofun
    | .error e, he => hf e (he e rfl)

theorem raises_ensuring {p : Prog O R ε α} {f : Prog O R ε Unit} (hp : p.raises A E F)
    (hf : f.raises A E F) : (p.ensuring f).raises A E F :=
  raises_handle hp fun _ hr => raises_bind hf fun _ => hr

theorem raises_ite {c : Prop} [Decidable c] {p q : Prog O R ε α} (hp : c → p.raises A E F)
    (hq : ¬c → q.raises A E F) : (if c then p else q).raises A E F := by
  split
  · exact hp ‹_›
  · exact hq ‹_›

variable (hhost : ∀ o w e, A o → (h.perform o w).1 = .error e → E e)
include hhost

/-- What a run raises, if the failures that strike it are admitted. -/
theorem raises_run {p : Prog O R ε α} (hp : p.raises A E F) {cs : List (Choice φ W)} {w : W}
    (hcs : ∀ c ∈ cs, ∀ x, c.fault = .before x ∨ c.fault = .after x → E (h.raises x)) {e : ε}
    (he : (run h p cs w).1 = some (.error e)) : F e := by
  induction p generalizing cs w with
  | done r => exact hp e (by simpa using he)
  | call o k ih =>
    cases cs with
    | nil => cases he
    | cons c cs =>
      refine ih _ (hp.2 _ fun x hx => ?_) (fun c' hc' => hcs c' (List.mem_cons_of_mem _ hc')) he
      unfold Host.act at hx
      have hc := hcs c (List.mem_cons_self ..)
      split at hx
      · exact hhost o _ x hp.1 hx
      · rename_i y hy
        cases hx
        exact hc y (.inl hy)
      · rename_i y hy
        cases hx
        exact hc y (.inr hy)

theorem raises_exec {p : Prog O R ε α} (hp : p.raises A E F) {w : W} {e : ε}
    (he : (exec h p w).1 = .error e) : F e := by
  induction p generalizing w with
  | done r => exact hp e he
  | call o k ih => exact ih _ (hp.2 _ fun x hx => hhost o w x hp.1 hx) he

end Raises

/-- A program whose calls all keep an assertion ends in a state that satisfies it. -/
theorem wp_of_uses {p : Prog O R ε α} {P : W → Prop} {Q : Except ε α → W → Prop} {w : W}
    (hp : p.uses A)
    (hstep : ∀ o c v, A o → ok o c v → P v → G (c.interfere v) (h.act c o v).2 ∧ P (h.act c o v).2)
    (hw : P w) (hQ : ∀ r v, P v → Q r v) : wp h ok G p Q w := by
  induction p generalizing w with
  | done r => exact hQ r w hw
  | call o k ih =>
    intro c hc
    obtain ⟨hG, hP⟩ := hstep o c w hp.1 hc hw
    exact ⟨hG, ih _ (hp.2 _) hP⟩

theorem uses_and {p : Prog O R ε α} (hA : p.uses A) (hB : p.uses B) :
    p.uses fun o => A o ∧ B o := by
  induction p with
  | done r => trivial
  | call o k ih => exact ⟨⟨hA.1, hB.1⟩, fun r => ih r (hA.2 r) (hB.2 r)⟩

/-- The calls of a faultless run whose effects all keep an assertion. -/
theorem along_of_uses {B : O → W → Prop} {P : W → Prop} {p : Prog O R ε α}
    (hp : p.uses A) (hstep : ∀ o w, A o → P w → B o w ∧ P (h.perform o w).2) {w : W} (hw : P w) :
    along h B p w := by
  induction p generalizing w with
  | done r => trivial
  | call o k ih =>
    obtain ⟨hB, hP⟩ := hstep o w hp.1 hw
    exact ⟨hB, ih _ (hp.2 _) hP⟩

/-- Where every admitted choice lets the call go through on the state as it is, the
faultless run decides. -/
theorem wp_of_along {P : W → Prop}
    {p : Prog O R ε α} {Q : Except ε α → W → Prop} (hp : p.uses A)
    (hok : ∀ o c w, A o → P w → ok o c w → c.fault = .none ∧ c.interfere w = w)
    (hstep : ∀ o w, A o → P w → P (h.perform o w).2) {w : W} (hw : P w)
    (hG : along h (fun o w => G w (h.perform o w).2) p w)
    (hQ : Q (exec h p w).1 (exec h p w).2) : wp h ok G p Q w := by
  induction p generalizing w with
  | done r => exact hQ
  | call o k ih =>
    intro c hc
    obtain ⟨hfault, hentry⟩ := hok o c w hp.1 hw hc
    have hact : h.act c o w = h.perform o w := by
      simp only [Host.act, hfault, hentry]
    rw [hact, hentry]
    exact ⟨hG.1, ih _ (hp.2 _) (hstep o w hp.1 hw) hG.2 hQ⟩

end Uses

/-- **Adequacy.**  If the weakest precondition holds, then in every run whose
calls are all admitted, killed runs included, an invariant that the environment
and the guarantee keep still holds, and a finished run satisfies `Q`. -/
theorem wp_run {p : Prog O R ε α} {Q : Except ε α → W → Prop} {I : W → Prop}
    (hrely : ∀ o c w, ok o c w → I w → I (c.interfere w)) (hG : ∀ w w', G w w' → I w → I w')
    {cs : List (Choice φ W)} {w : W} (hp : wp h ok G p Q w)
    (hok : ∀ s ∈ steps h p cs w, ok s.op s.choice s.world) (hw : I w) :
    I (run h p cs w).2 ∧ ∀ r, (run h p cs w).1 = some r → Q r (run h p cs w).2 := by
  induction p generalizing cs w with
  | done r => simpa [hw] using hp
  | call o k ih =>
    cases cs with
    | nil => simpa [run] using hw
    | cons c cs =>
      have hc := hok _ (List.mem_cons_self ..)
      exact ih _ (hp c hc).2 (fun s hs => hok s (List.mem_cons_of_mem _ hs))
        (hG _ _ (hp c hc).1 (hrely _ _ _ hc hw))

/-- The faultless run satisfies the postcondition, if it is admitted. -/
theorem wp_exec {p : Prog O R ε α} {Q : Except ε α → W → Prop} {w : W}
    (hp : wp h ok G p Q w) (hcalm : ∀ o w, ok o .calm w) : Q (exec h p w).1 (exec h p w).2 := by
  induction p generalizing w with
  | done r => exact hp
  | call o k ih => exact ih _ (hp .calm (hcalm o w)).2

/-- Every call of an admitted run keeps the guarantee. -/
theorem wp_steps {p : Prog O R ε α} {Q : Except ε α → W → Prop} {cs : List (Choice φ W)} {w : W}
    (hp : wp h ok G p Q w) (hok : ∀ s ∈ steps h p cs w, ok s.op s.choice s.world) :
    ∀ s ∈ steps h p cs w, G (s.choice.interfere s.world) (h.act s.choice s.op s.world).2 := by
  induction p generalizing cs w with
  | done r => cases cs <;> simp [steps]
  | call o k ih =>
    cases cs with
    | nil => simp [steps]
    | cons c cs =>
      have hc := hok _ (List.mem_cons_self ..)
      intro s hs
      rcases List.mem_cons.mp hs with rfl | hs
      · exact (hp c hc).1
      · exact ih _ (hp c hc).2 (fun s hs => hok s (List.mem_cons_of_mem _ hs)) s hs

end Wp

end Prog

/-! ## Sessions -/

/-- The states that a system reaches from `w₀`: one program after another is run,
each to its end or until it is killed, and the environment moves in between. -/
inductive Session {κ : Type} (h : Host O R ε φ W) (prog : κ → Prog O R ε α)
    (admits : κ → List (Choice φ W) → W → Prop) (between : W → W → Prop) (w₀ : W) : W → Prop
  | start : Session h prog admits between w₀ w₀
  | run {w : W} (k : κ) (cs : List (Choice φ W)) (before : Session h prog admits between w₀ w)
      (admitted : admits k cs w) : Session h prog admits between w₀ ((prog k).run h cs w).2
  | move {w w' : W} (before : Session h prog admits between w₀ w) (moved : between w w') :
      Session h prog admits between w₀ w'

/-- An invariant that every admitted run and every move in between keeps holds in
every state that a session reaches. -/
theorem Session.invariant {κ : Type} {h : Host O R ε φ W} {prog : κ → Prog O R ε α}
    {admits : κ → List (Choice φ W) → W → Prop} {between : W → W → Prop} {w₀ w : W} {I : W → Prop}
    (hrun : ∀ k cs w, admits k cs w → I w → I ((prog k).run h cs w).2)
    (hbetween : ∀ w w', between w w' → I w → I w')
    (hw : Session h prog admits between w₀ w) (h₀ : I w₀) : I w := by
  induction hw with
  | start => exact h₀
  | run k cs before admitted ih => exact hrun k cs _ admitted ih
  | move before moved ih => exact hbetween _ _ moved ih

/-- A session with its runs and the states in which they began, the latest first. -/
inductive Trail {κ : Type} (h : Host O R ε φ W) (prog : κ → Prog O R ε α)
    (admits : κ → List (Choice φ W) → W → Prop) (between : W → W → Prop) (w₀ : W) :
    List (κ × W) → W → Prop
  | start : Trail h prog admits between w₀ [] w₀
  | run {begun : List (κ × W)} {w : W} (k : κ) (cs : List (Choice φ W))
      (before : Trail h prog admits between w₀ begun w) (admitted : admits k cs w) :
      Trail h prog admits between w₀ ((k, w) :: begun) ((prog k).run h cs w).2
  | move {begun : List (κ × W)} {w w' : W} (before : Trail h prog admits between w₀ begun w)
      (moved : between w w') : Trail h prog admits between w₀ begun w'

section Trail
variable {κ : Type} {h : Host O R ε φ W} {prog : κ → Prog O R ε α}
  {admits : κ → List (Choice φ W) → W → Prop} {between : W → W → Prop} {begun : List (κ × W)}
  {k : κ} {w₀ w b : W}

theorem Trail.session (hw : Trail h prog admits between w₀ begun w) :
    Session h prog admits between w₀ w := by
  induction hw with
  | start => exact .start
  | run k cs before admitted ih => exact ih.run k cs admitted
  | move before moved ih => exact ih.move moved

/-- Every run began in a state that the session reached. -/
theorem Trail.session_of_mem (hw : Trail h prog admits between w₀ begun w) (hb : (k, b) ∈ begun) :
    Session h prog admits between w₀ b := by
  induction hw with
  | start => cases hb
  | run k' cs before admitted ih =>
    rcases List.mem_cons.mp hb with heq | hb
    · obtain ⟨rfl, rfl⟩ := Prod.mk.inj heq
      exact before.session
    · exact ih hb
  | move before moved ih => exact ih hb

end Trail

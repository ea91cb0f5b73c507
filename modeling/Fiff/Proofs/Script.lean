import Fiff.Session

/-!
# What a labelled-matrix write does on any sink

A labelled-matrix write makes the same calls whatever the sink: its checks on the counts come
first and touch nothing, then it adds a note, then it makes the calls of the block, each of which
stops the write when it fails, with a label check that may stop it halfway. A `Script` spells
such a sequence out, `Script.namedMatrix` is the one of a labelled matrix, and
`writeNamedMatrix` runs it. Every step of a session is a script.

Two consequences carry the theorems about sessions: what every call and every note keeps, every
session keeps; and a session run on a traced sink does to the inner sink what it does untraced.
-/

set_option autoImplicit false

namespace Fiff

/-- Notes and calls on a sink, stopping at the first call that fails or at a failure. -/
inductive Script where
  | done
  | fail (e : MatrixError)
  | note (n : Note) (rest : Script)
  | call (c : Call) (rest : Script)

namespace Script

def labels (kind : Int32) (axis : Axis) (names : List String) (expected : Nat) (rest : Script) :
    Script :=
  if names.isEmpty then rest
  else if names.length ≠ expected then fail (.labelCountMismatch axis names.length expected)
  else call (.writeNameList kind names) rest

/-- The script of a labelled matrix written as one block, its data under `kind`. -/
def namedMatrix (kind : Int32) (m : NamedMatrix) : Script :=
  let expected := saturatingMul m.nrow m.ncol
  let actual := m.data.entries.length
  if expected ≠ actual then
    fail (.shapeMismatch m.nrow m.ncol expected actual (offByFactor expected actual))
  else match dimensionTag m.nrow, dimensionTag m.ncol with
    | .error e, _ => fail e
    | .ok _, .error e => fail e
    | .ok nrow, .ok ncol =>
      note ⟨.debug, .matrixWrite,
        s!"writing named matrix (kind = {kind.toInt}): {nrow.toInt}x{ncol.toInt}"⟩ <|
      call (.startBlock Block.namedMatrix) <|
      call (.writeInt Kind.nrow nrow) <|
      call (.writeInt Kind.ncol ncol) <|
      labels Kind.rowNames .rows m.rowNames m.nrow <|
      labels Kind.colNames .columns m.colNames m.ncol <|
      call (.writeFloatMatrix kind m.data) <|
      call (.endBlock Block.namedMatrix) done

variable {σ : Type} [TagWrite σ] [Journal σ]

def run : Script → EStateM MatrixError σ Unit
  | done => fun s => .ok () s
  | fail e => fun s => .error e s
  | note n rest => fun s => rest.run (Journal.note s n)
  | call c rest => fun s => match c.perform.run s with
    | .ok () s' => rest.run s'
    | .error e s' => .error (.tag e) s'

theorem run_call_eq_bind (c : Call) (rest : Script) :
    ((call c rest).run : EStateM MatrixError σ Unit) =
      (c.perform.adaptExcept .tag >>= fun _ => rest.run) := by
  funext s
  show (match c.perform.run s with | .ok () s' => rest.run s' | .error e s' => .error (.tag e) s') = _
  simp only [bind, EStateM.bind, EStateM.adaptExcept, EStateM.run]
  cases c.perform s <;> rfl

def ofCalls (cs : List Call) (rest : Script) : Script := cs.foldr call rest

@[simp] theorem ofCalls_nil (rest : Script) : ofCalls [] rest = rest := rfl

@[simp] theorem ofCalls_cons (c : Call) (cs : List Call) (rest : Script) :
    ofCalls (c :: cs) rest = call c (ofCalls cs rest) := rfl

theorem ofCalls_append (cs ds : List Call) (rest : Script) :
    ofCalls (cs ++ ds) rest = ofCalls cs (ofCalls ds rest) := List.foldr_append

theorem run_call_ok {c : Call} {rest : Script} {s s' : σ} (h : c.perform.run s = .ok () s') :
    (call c rest).run s = rest.run s' := by
  show (match c.perform.run s with
    | .ok () s' => rest.run s' | .error e s' => .error (MatrixError.tag e) s') = _
  rw [h]

theorem run_call_error {c : Call} {rest : Script} {s s' : σ} {e : TagError}
    (h : c.perform.run s = .error e s') : (call c rest).run s = .error (.tag e) s' := by
  show (match c.perform.run s with
    | .ok () s' => rest.run s' | .error e s' => .error (MatrixError.tag e) s') = _
  rw [h]

theorem run_done_eq_pure : (done.run : EStateM MatrixError σ Unit) = pure () := rfl

theorem run_note_eq_bind (n : Note) (rest : Script) :
    ((note n rest).run : EStateM MatrixError σ Unit) =
      (modify (Journal.note · n) >>= fun _ => rest.run) := rfl

theorem run_labels_eq_bind (kind : Int32) (axis : Axis) (names : List String) (expected : Nat)
    (rest : Script) :
    ((labels kind axis names expected rest).run : EStateM MatrixError σ Unit) =
      (writeLabels kind axis names expected >>= fun _ => rest.run) := by
  unfold writeLabels labels
  by_cases hEmpty : names.isEmpty
  · rw [if_pos hEmpty, if_pos hEmpty, pure_bind]
  · rw [if_neg hEmpty, if_neg hEmpty]
    by_cases hCount : names.length ≠ expected
    · rw [if_pos hCount, if_pos hCount]
      rfl
    · rw [if_neg hCount, if_neg hCount, run_call_eq_bind]
      rfl

omit [TagWrite σ] [Journal σ] in
private theorem throw_bind_eq {α β : Type} (e : MatrixError) (f : α → EStateM MatrixError σ β) :
    (throw e >>= f) = throw e := rfl

theorem writeNamedMatrix_eq_run (kind : Int32) (m : NamedMatrix) :
    (writeNamedMatrix kind m : EStateM MatrixError σ Unit) = (namedMatrix kind m).run := by
  unfold writeNamedMatrix namedMatrix
  by_cases hShape : saturatingMul m.nrow m.ncol = m.data.entries.length
  · cases dimensionTag m.nrow with
    | error e =>
      simp only [hShape, ne_eq, not_true_eq_false, if_false, throw_bind_eq, pure_bind]
      rfl
    | ok nrow =>
      cases dimensionTag m.ncol with
      | error e =>
        simp only [hShape, ne_eq, not_true_eq_false, if_false, throw_bind_eq, pure_bind]
        rfl
      | ok ncol =>
        simp only [hShape, ne_eq, not_true_eq_false, if_false, run_note_eq_bind, run_call_eq_bind,
          run_labels_eq_bind, run_done_eq_pure, Call.perform, bind_pure_unit, pure_bind]
  · simp only [hShape, ne_eq, not_false_eq_true, if_true, throw_bind_eq]
    rfl

end Script

namespace Traced

variable {σ : Type} [TagWrite σ] [Journal σ]

def project {ε α : Type} : EStateM.Result ε (Traced σ) α → EStateM.Result ε σ α
  | .ok a t => .ok a t.inner
  | .error e t => .error e t.inner

omit [TagWrite σ] [Journal σ] in
theorem inner_resultState {ε α : Type} (r : EStateM.Result ε (Traced σ) α) :
    (resultState r).inner = resultState (project r) := by
  cases r <;> rfl

omit [Journal σ] in
theorem perform_call (c : Call) : (c.perform : EStateM TagError (Traced σ) Unit) = perform c := by
  cases c <;> rfl

theorem project_run (sc : Script) (t : Traced σ) : project (sc.run t) = sc.run t.inner := by
  induction sc generalizing t with
  | done => rfl
  | fail e => rfl
  | note n rest ih => exact ih _
  | call c rest ih =>
    simp only [Script.run, perform_call, perform, EStateM.run]
    cases c.perform t.inner with
    | ok _ s => exact ih _
    | error e s => rfl

end Traced

namespace Step

variable {σ : Type} [TagWrite σ] [Journal σ]

def script : Step → Script
  | call c => .call c .done
  | writeNamedMatrix kind m => .namedMatrix kind m

theorem next_eq_run (s : Step) (w : σ) : s.next w = resultState (s.script.run w) := by
  cases s with
  | call c =>
    show resultState (c.perform.run w) = resultState (match c.perform.run w with
      | .ok () s' => .ok () s' | .error e s' => .error (MatrixError.tag e) s')
    cases c.perform.run w <;> rfl
  | writeNamedMatrix kind m =>
    rw [next, script, Script.writeNamedMatrix_eq_run]
    rfl

theorem runAll_preserves (P : σ → Prop) (hCall : ∀ (c : Call) s, P s → P (resultState (c.perform.run s)))
    (hNote : ∀ s n, P s → P (Journal.note s n)) (steps : List Step) (s : σ) (hs : P s) :
    P (runAll steps s) := by
  have hScript : ∀ (sc : Script) (s : σ), P s → P (resultState (sc.run s)) := by
    intro sc
    induction sc with
    | done => exact fun s hs => hs
    | fail e => exact fun s hs => hs
    | note n rest ih => exact fun s hs => ih _ (hNote s n hs)
    | call c rest ih =>
      intro s hs
      have hc := hCall c s hs
      show P (resultState (match c.perform.run s with
        | .ok () s' => rest.run s' | .error e s' => .error (MatrixError.tag e) s'))
      cases h : c.perform.run s with
      | ok _ s' => exact ih s' (by rw [h] at hc; exact hc)
      | error e s' => rw [h] at hc; exact hc
  induction steps generalizing s with
  | nil => exact hs
  | cons step steps ih =>
    rw [runAll, List.foldl_cons]
    exact ih _ (next_eq_run step s ▸ hScript step.script s hs)

theorem inner_runAll (steps : List Step) (t : Traced σ) :
    (runAll steps t).inner = runAll steps t.inner := by
  induction steps generalizing t with
  | nil => rfl
  | cons step steps ih =>
    have hStep : (step.next t).inner = step.next t.inner := by
      rw [next_eq_run, next_eq_run, Traced.inner_resultState, Traced.project_run]
    calc (runAll (step :: steps) t).inner = (runAll steps (step.next t)).inner := rfl
      _ = runAll steps (step.next t).inner := ih _
      _ = runAll (step :: steps) t.inner := by rw [hStep]; rfl

end Step

end Fiff

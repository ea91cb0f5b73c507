import Fiff.Named.Write

/-!
# Writing sessions

A session is a sequence of steps on a tag sink: single calls of the sink, and labelled matrices
written as blocks. A step that fails leaves the sink as the failure left it, and the session
goes on with the next step.

`Traced` wraps a sink and keeps every call made on it, with its outcome; the calls a labelled
matrix makes are kept one by one. A session run on a traced sink therefore shows which calls
succeeded, and each call that succeeded wrote one tag: `Call.tag` is that tag.
-/

set_option autoImplicit false

namespace Fiff

/-- A call of a tag sink. -/
inductive Call where
  | startBlock (kind : Int32)
  | endBlock (kind : Int32)
  | writeInt (kind value : Int32)
  | writeString (kind : Int32) (value : String)
  | writeNameList (kind : Int32) (names : List String)
  | writeFloatMatrix (kind : Int32) (m : Matrix)
  deriving DecidableEq

namespace Call

def perform {σ : Type} [TagWrite σ] : Call → EStateM TagError σ Unit
  | startBlock kind => TagWrite.startBlock kind
  | endBlock kind => TagWrite.endBlock kind
  | writeInt kind value => TagWrite.writeInt kind value
  | writeString kind value => TagWrite.writeString kind value
  | writeNameList kind names => TagWrite.writeNameList kind names
  | writeFloatMatrix kind m => TagWrite.writeFloatMatrix kind m

/-- The tag a call writes when it succeeds: a block's opening and closing tags carry its kind,
and a label list is one text, its labels joined by `:`. -/
def tag : Call → Tag
  | startBlock kind => ⟨Kind.blockStart, .int kind⟩
  | endBlock kind => ⟨Kind.blockEnd, .int kind⟩
  | writeInt kind value => ⟨kind, .int value⟩
  | writeString kind value => ⟨kind, .string value⟩
  | writeNameList kind names => ⟨kind, .string (":".intercalate names)⟩
  | writeFloatMatrix kind m => ⟨kind, .floatMatrix m⟩

end Call

def resultState {ε σ α : Type} : EStateM.Result ε σ α → σ
  | .ok _ s => s
  | .error _ s => s

/-- A sink together with every call made on it so far and its outcome. -/
structure Traced (σ : Type) where
  inner : σ
  calls : List (Call × Except TagError Unit)

namespace Traced

variable {σ : Type}

def new (s : σ) : Traced σ := ⟨s, []⟩

def perform [TagWrite σ] (c : Call) : EStateM TagError (Traced σ) Unit :=
  fun t => match c.perform.run t.inner with
    | .ok () s => .ok () ⟨s, t.calls ++ [(c, .ok ())]⟩
    | .error e s => .error e ⟨s, t.calls ++ [(c, .error e)]⟩

instance [TagWrite σ] : TagWrite (Traced σ) where
  startBlock kind := perform (.startBlock kind)
  endBlock kind := perform (.endBlock kind)
  writeInt kind value := perform (.writeInt kind value)
  writeString kind value := perform (.writeString kind value)
  writeNameList kind names := perform (.writeNameList kind names)
  writeFloatMatrix kind m := perform (.writeFloatMatrix kind m)

instance [Journal σ] : Journal (Traced σ) := ⟨fun t n => { t with inner := Journal.note t.inner n }⟩

def written (t : Traced σ) : List Call :=
  t.calls.filterMap fun
    | (c, .ok ()) => some c
    | (_, .error _) => none

end Traced

/-- One step of a writing session. -/
inductive Step where
  | call (c : Call)
  | writeNamedMatrix (kind : Int32) (m : NamedMatrix)

namespace Step

variable {σ : Type} [TagWrite σ] [Journal σ]

def next (s : Step) (w : σ) : σ :=
  match s with
  | call c => resultState (c.perform.run w)
  | writeNamedMatrix kind m => resultState ((Fiff.writeNamedMatrix kind m).run w)

def runAll (steps : List Step) (w : σ) : σ :=
  steps.foldl (fun w s => s.next w) w

end Step

end Fiff

/-
  Lexis.Run.Transcript

  Computations that write to standard error as they go and may stop early.

  A line that has been written stays written when a later part stops. Events are always recorded;
  which of them are shown is decided when the run is over.
-/

import Lexis.Cursor.Basic
import Lexis.Failure
import Lexis.Run.Log

namespace Lexis

/-- Something written to standard error. -/
inductive Line where
  | event (e : Event)
  | plain (s : String)
  deriving DecidableEq

/-- Why a computation stops early. -/
inductive Stop where
  /-- It fails, which the run reports. -/
  | failure (f : Failure)
  /-- A limit of the scanner is passed, which ends the run at once. -/
  | fault (f : Fault)
  deriving DecidableEq

/-- What a computation has written, and its result. -/
structure Transcript (α : Type) where
  lines : List Line
  result : Except Stop α

namespace Transcript

/-- One computation after the other: the lines of both, unless the first stops. -/
instance : Monad Transcript where
  pure a := ⟨[], .ok a⟩
  bind x f :=
    match x.result with
    | .ok a => ⟨x.lines ++ (f a).lines, (f a).result⟩
    | .error stop => ⟨x.lines, .error stop⟩

/-- Writing first one thing, then another, then a third is the same in whichever order the three
    are put together. -/
instance : LawfulMonad Transcript :=
  LawfulMonad.mk' Transcript
    (fun x => by
      cases x with
      | mk lines result => cases result <;> simp [Functor.map])
    (fun a f => by simp [bind, pure])
    (fun x f g => by
      cases x with
      | mk lines result =>
        cases result with
        | error stop => simp [bind]
        | ok a => cases h : (f a).result <;> simp [bind, h])

/-- Writes lines. -/
def write (lines : List Line) : Transcript Unit :=
  ⟨lines, .ok ()⟩

/-- Records an event. -/
def record (e : Event) : Transcript Unit :=
  write [.event e]

/-- Stops with a failure. -/
def fail {α : Type} (f : Failure) : Transcript α :=
  ⟨[], .error (.failure f)⟩

/-- A computation that writes nothing and may fail. -/
def ofFailing {α : Type} (x : Except Failure α) : Transcript α :=
  ⟨[], x.mapError .failure⟩

/-- A computation that writes nothing and may pass a limit. -/
def ofScan {α : Type} (x : Except Fault α) : Transcript α :=
  ⟨[], x.mapError .fault⟩

theorem lines_bind_ok {α β : Type} {x : Transcript α} {f : α → Transcript β} {a : α}
    (h : x.result = .ok a) : (x >>= f).lines = x.lines ++ (f a).lines := by
  simp [bind, h]

theorem result_bind_ok {α β : Type} {x : Transcript α} {f : α → Transcript β} {a : α}
    (h : x.result = .ok a) : (x >>= f).result = (f a).result := by
  simp [bind, h]

theorem bind_error {α β : Type} {x : Transcript α} {f : α → Transcript β} {stop : Stop}
    (h : x.result = .error stop) : x >>= f = ⟨x.lines, .error stop⟩ := by
  simp [bind, h]

theorem result_bind {α β : Type} (x : Transcript α) (f : α → Transcript β) :
    (x >>= f).result = x.result >>= fun a => (f a).result := by
  cases x with
  | mk lines result => cases result <;> rfl

/-- What stops one of several computations in a row stops them all. -/
theorem result_mapM {α β : Type} (f : α → Transcript β) (l : List α) :
    (l.mapM f).result = l.mapM fun a => (f a).result := by
  induction l with
  | nil => rfl
  | cons a l ih =>
    rw [List.mapM_cons, List.mapM_cons, result_bind]
    congr 1
    funext b
    rw [result_bind, ih]
    rfl

end Transcript

end Lexis

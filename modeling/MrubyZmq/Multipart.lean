import Mathlib.Tactic.Common

/-!
# Multipart messages

A message is sent as a sequence of *frames*, each telling whether more frames
of the same message follow (`frames`). The frames of a message are written one
by one, and a *pipe* only lets the other side read them once the last one is
written: until then they are pending, and a frame written next is a frame of
the same message. Between two messages (at a message *boundary*) nothing is
pending.
-/

namespace MrubyZmq

/-- A frame with the payload `data`, followed by another frame of the same
    message if `more`. -/
structure Frame (α : Type*) where
  data : α
  more : Bool
  deriving DecidableEq, Repr

variable {α : Type*}

/-- The frames of an unfinished message. -/
def openFrames (l : List α) : List (Frame α) := l.map (⟨·, true⟩)

/-- The frames of a message: more follow on all but the last. -/
def frames : List α → List (Frame α)
  | [] => []
  | [a] => [⟨a, false⟩]
  | a :: b :: l => ⟨a, true⟩ :: frames (b :: l)

theorem frames_append (l : List α) {m : List α} (hm : m ≠ []) :
    frames (l ++ m) = openFrames l ++ frames m := by
  induction l with
  | nil => rfl
  | cons a l ih =>
    obtain ⟨b, k, hk⟩ := List.exists_cons_of_ne_nil (List.append_ne_nil_of_right_ne_nil l hm)
    rw [List.cons_append, hk, frames, ← hk, ih]
    rfl

theorem frames_concat (l : List α) (a : α) : frames (l ++ [a]) = openFrames l ++ [⟨a, false⟩] :=
  frames_append l (List.cons_ne_nil a [])

@[simp] theorem length_frames (l : List α) : (frames l).length = l.length := by
  induction l using frames.induct with
  | case1 => rfl
  | case2 => rfl
  | case3 a b l ih => simp only [frames, List.length_cons, ih]

/-- The sending end of a pipe: the frames the other side can read, and the
    pending frames of the message being written. -/
structure Pipe (α : Type*) where
  flushed : List (Frame α) := []
  pending : List (Frame α) := []
  deriving DecidableEq, Repr

namespace Pipe

variable (p : Pipe α)

/-- Writing a frame: the last one of a message flushes it. -/
def write (f : Frame α) : Pipe α :=
  if f.more then { p with pending := p.pending ++ [f] }
  else { flushed := p.flushed ++ p.pending ++ [f], pending := [] }

/-- All the frames written. -/
def written : List (Frame α) := p.flushed ++ p.pending

/-- The pipe is between two messages. -/
def AtBoundary : Prop := p.pending = []

instance [DecidableEq α] : Decidable p.AtBoundary := inferInstanceAs (Decidable (p.pending = []))

@[simp] theorem write_more (a : α) :
    p.write ⟨a, true⟩ = { p with pending := p.pending ++ [⟨a, true⟩] } := rfl

@[simp] theorem write_last (a : α) :
    p.write ⟨a, false⟩ = { flushed := p.flushed ++ p.pending ++ [⟨a, false⟩] } := rfl

theorem written_write (f : Frame α) : (p.write f).written = p.written ++ [f] := by
  rw [write]
  split <;> simp [written]

theorem written_foldl_write (l : List (Frame α)) :
    (l.foldl write p).written = p.written ++ l := by
  induction l generalizing p with
  | nil => simp
  | cons f l ih => rw [List.foldl_cons, ih, written_write, List.append_assoc, List.singleton_append]

theorem foldl_write_openFrames (l : List α) :
    (openFrames l).foldl write p = { p with pending := p.pending ++ openFrames l } := by
  induction l generalizing p with
  | nil => simp [openFrames]
  | cons a l ih =>
    rw [openFrames, List.map_cons, List.foldl_cons, write_more]
    exact (ih _).trans (by simp [openFrames])

/-- Writing all the frames of a message finishes the pending one with them. -/
theorem foldl_write_frames {m : List α} (hm : m ≠ []) :
    (frames m).foldl write p = { flushed := p.flushed ++ p.pending ++ frames m } := by
  obtain ⟨l, a, rfl⟩ := (List.eq_nil_or_concat m).resolve_left hm
  rw [List.concat_eq_append, frames_concat, List.foldl_append, foldl_write_openFrames]
  simp

end Pipe

end MrubyZmq

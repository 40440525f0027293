import Mathlib.Data.List.Basic

/-!
# Event streams

A body is a sequence of lines, each a field name, a colon and a value; a blank
line dispatches the values of the data fields before it. A reader takes the
body symbol by symbol, so what it has read does not depend on the pieces in
which the body arrives.
-/

set_option autoImplicit false

namespace AigentSquad.EventStream

variable {α : Type} [DecidableEq α]

/-- The symbols that structure a stream, and the name of its data fields. -/
structure Alphabet (α : Type) where
  lf : α
  cr : α
  colon : α
  space : α
  data : List α
  lf_ne_cr : lf ≠ cr
  colon_ne_lf : colon ≠ lf
  colon_ne_cr : colon ≠ cr
  space_ne_lf : space ≠ lf
  space_ne_cr : space ≠ cr
  data_plain : ∀ x ∈ data, x ≠ lf ∧ x ≠ cr ∧ x ≠ colon

structure Reader (α : Type) where
  /-- the line so far -/
  line : List α
  /-- whether the last symbol was a carriage return -/
  after_cr : Bool
  /-- the values of the data fields since the last blank line -/
  values : List (List α)
  events : List (List α)
deriving DecidableEq

def Reader.start : Reader α := ⟨[], false, [], []⟩

variable (a : Alphabet α)

def strip_space : List α → List α
  | [] => []
  | x :: xs => if x = a.space then xs else x :: xs

/-- The field of a line: its name, and its value without one leading space. -/
def field (line : List α) : List α × List α :=
  (line.takeWhile (fun x => decide (x ≠ a.colon)),
    strip_space a ((line.dropWhile (fun x => decide (x ≠ a.colon))).drop 1))

/-- A blank line: the values of an event are joined with line feeds. -/
def dispatch (r : Reader α) : Reader α :=
  if r.values.isEmpty then r
  else { r with values := [], events := r.events ++ [List.intercalate [a.lf] r.values] }

def end_line (r : Reader α) : Reader α :=
  if r.line.isEmpty then dispatch a r
  else if (field a r.line).1 = a.data then
    { r with line := [], values := r.values ++ [(field a r.line).2] }
  else { r with line := [] }

def feed (r : Reader α) (x : α) : Reader α :=
  if x = a.lf then
    if r.after_cr then { r with after_cr := false } else end_line a r
  else if x = a.cr then { end_line a { r with after_cr := false } with after_cr := true }
  else { r with line := r.line ++ [x], after_cr := false }

def read (r : Reader α) (body : List α) : Reader α := body.foldl (feed a) r

/-- The events of a body that arrives in pieces. -/
def events (pieces : List (List α)) : List (List α) := (pieces.foldl (read a) .start).events

/-- One event whose data is one line. -/
def frame (payload : List α) : List α :=
  a.data ++ (a.colon :: a.space :: payload) ++ [a.lf, a.lf]

/-- No line ends within it. -/
def OneLine (s : List α) : Prop := ∀ x ∈ s, x ≠ a.lf ∧ x ≠ a.cr

theorem read_append (r : Reader α) (s t : List α) :
    read a r (s ++ t) = read a (read a r s) t :=
  List.foldl_append

theorem read_pieces (r : Reader α) (pieces : List (List α)) :
    pieces.foldl (read a) r = read a r pieces.flatten := by
  induction pieces generalizing r with
  | nil => rfl
  | cons piece pieces ih => rw [List.foldl_cons, ih, List.flatten_cons, read_append]

theorem read_line (r : Reader α) (s : List α) (hs : OneLine a s) (hcr : r.after_cr = false) :
    read a r s = { r with line := r.line ++ s } := by
  induction s generalizing r with
  | nil => simp [read]
  | cons x s ih =>
    obtain ⟨hx, hrest⟩ := List.forall_mem_cons.mp hs
    have hfeed : feed a r x = { r with line := r.line ++ [x] } := by
      simp [feed, hx.1, hx.2, hcr]
    calc read a r (x :: s) = read a (feed a r x) s := rfl
      _ = { r with line := r.line ++ (x :: s) } := by
        rw [hfeed, ih { r with line := r.line ++ [x] } hrest hcr]
        simp

theorem field_data (payload : List α) :
    field a (a.data ++ (a.colon :: a.space :: payload)) = (a.data, payload) := by
  have hdata : ∀ x ∈ a.data, decide (x ≠ a.colon) = true :=
    fun x hx => decide_eq_true (a.data_plain x hx).2.2
  unfold field
  rw [List.takeWhile_append_of_pos hdata, List.dropWhile_append_of_pos hdata]
  simp [strip_space]

omit [DecidableEq α] in
theorem data_line (payload : List α) (h : OneLine a payload) :
    OneLine a (a.data ++ (a.colon :: a.space :: payload)) := by
  intro x hx
  rcases List.mem_append.mp hx with hdata | hrest
  · exact ⟨(a.data_plain x hdata).1, (a.data_plain x hdata).2.1⟩
  · rcases List.mem_cons.mp hrest with rfl | hrest
    · exact ⟨a.colon_ne_lf, a.colon_ne_cr⟩
    · rcases List.mem_cons.mp hrest with rfl | hpayload
      · exact ⟨a.space_ne_lf, a.space_ne_cr⟩
      · exact h x hpayload

/-- A frame read between two events is one event more. -/
theorem read_frame (payload : List α) (h : OneLine a payload) (past : List (List α)) :
    read a ⟨[], false, [], past⟩ (frame a payload) = ⟨[], false, [], past ++ [payload]⟩ := by
  have hline := read_line a ⟨[], false, [], past⟩ _ (data_line a payload h) rfl
  have hfield := field_data a payload
  have hnonempty : (a.data ++ (a.colon :: a.space :: payload)).isEmpty = false := by simp
  rw [frame, read_append, hline]
  simp only [List.nil_append, read, List.foldl_cons, List.foldl_nil]
  simp [feed, end_line, hfield, dispatch]

theorem read_frames (payloads : List (List α)) (h : ∀ p ∈ payloads, OneLine a p)
    (past : List (List α)) :
    read a ⟨[], false, [], past⟩ (payloads.flatMap (frame a)) =
      ⟨[], false, [], past ++ payloads⟩ := by
  induction payloads generalizing past with
  | nil => simp [read]
  | cons p payloads ih =>
    obtain ⟨hp, hrest⟩ := List.forall_mem_cons.mp h
    rw [List.flatMap_cons, read_append, read_frame a p hp, ih hrest]
    simp

/-- However the frames are cut into pieces, their payloads are read. -/
theorem events_of_frames (payloads pieces : List (List α)) (h : ∀ p ∈ payloads, OneLine a p)
    (hpieces : pieces.flatten = payloads.flatMap (frame a)) : events a pieces = payloads := by
  have hread := read_frames a payloads h []
  rw [events, read_pieces, hpieces]
  exact congrArg Reader.events hread

omit [DecidableEq α] in
theorem dispatch_events (r : Reader α) : r.events <+: (dispatch a r).events := by
  unfold dispatch
  split
  · exact List.prefix_rfl
  · exact List.prefix_append _ _

theorem end_line_events (r : Reader α) : r.events <+: (end_line a r).events := by
  unfold end_line
  split
  · exact dispatch_events a r
  · split <;> exact List.prefix_rfl

theorem feed_events (r : Reader α) (x : α) : r.events <+: (feed a r x).events := by
  unfold feed
  split
  · split
    · exact List.prefix_rfl
    · exact end_line_events a r
  · split
    · exact end_line_events a { r with after_cr := false }
    · exact List.prefix_rfl

theorem read_events (r : Reader α) (s : List α) : r.events <+: (read a r s).events := by
  induction s generalizing r with
  | nil => exact List.prefix_rfl
  | cons x s ih => exact (feed_events a r x).trans (ih (feed a r x))

/-- Of a body that is cut off the first events are read. -/
theorem events_of_prefix (payloads pieces : List (List α)) (h : ∀ p ∈ payloads, OneLine a p)
    (hpieces : pieces.flatten <+: payloads.flatMap (frame a)) : events a pieces <+: payloads := by
  obtain ⟨lost, hlost⟩ := hpieces
  have hwhole : events a (pieces ++ [lost]) = payloads :=
    events_of_frames a payloads (pieces ++ [lost]) h (by simpa using hlost)
  have hmore := read_events a (read a .start pieces.flatten) lost
  rw [← hwhole, events, events, read_pieces, read_pieces, List.flatten_append, read_append]
  simpa using hmore

end AigentSquad.EventStream

/-!
Text for a terminal, without what would steer the terminal. A control sequence starts with the
escape character; what ends it depends on its kind. Control sequences and the control characters
outside them are dropped, white space apart.
-/

namespace LinProg.Text

/-- White space among the control characters, but for the vertical tab. -/
def isControlBlank (c : Char) : Bool := c = '\t' || c = '\n' || c = '\x0c' || c = '\r'

def isVisible (c : Char) : Bool := isControlBlank c || (' ' ≤ c && c ≠ '\x7f')

/-- How far a control sequence has come. -/
inductive Sequence where
  /-- Outside any sequence. -/
  | outside
  | escape
  /-- A short sequence after its first character. -/
  | short
  /-- A sequence with parameters, up to a letter. -/
  | parameters
  | deviceStart
  | deviceParameters
  | deviceIntermediate
  /-- A string that the byte `0x9C` ends. -/
  | string
  /-- A command that the bell ends. -/
  | command
  deriving DecidableEq, Repr

namespace Sequence

/-- A byte of this value ends a string, even inside the encoding of another character. -/
def endsString (c : Char) : Bool := (String.utf8EncodeChar c).contains 0x9C

/-- The sequence after one more character, which is neither an escape nor a cancellation. -/
def advance (s : Sequence) (c : Char) : Sequence :=
  match s with
  | outside => outside
  | escape =>
    if c = '[' then parameters
    else if c = ']' then command
    else if c = 'P' then deviceStart
    else if c = 'X' || c = '^' || c = '_' then string
    else if ' ' ≤ c && c ≤ '/' then short
    else if '0' ≤ c && c ≤ '~' then outside
    else escape
  | short => if '0' ≤ c && c ≤ '~' then outside else short
  | parameters => if '@' ≤ c && c ≤ '~' then outside else parameters
  | deviceStart =>
    if ' ' ≤ c && c ≤ '/' then deviceIntermediate
    else if '0' ≤ c && c ≤ '?' then deviceParameters
    else if '@' ≤ c && c ≤ '~' then string
    else deviceStart
  | deviceParameters =>
    if ' ' ≤ c && c ≤ '/' then deviceIntermediate
    else if '<' ≤ c && c ≤ '~' then string
    else deviceParameters
  | deviceIntermediate => if '0' ≤ c && c ≤ '~' then string else deviceIntermediate
  | string => if endsString c then outside else string
  | command => if c = '\x07' then outside else command

/-- An escape starts anew, and a cancellation ends every sequence. -/
def next (s : Sequence) (c : Char) : Sequence :=
  if c = '\x1b' then escape
  else if c = '\x18' || c = '\x1a' then outside
  else s.advance c

/-- Whether a character is shown that stands inside a sequence. White space is, except in strings
and commands. -/
def shows (s : Sequence) (c : Char) : Bool :=
  match s with
  | outside => isVisible c
  | escape | short | parameters => isControlBlank c
  | _ => false

end Sequence

/-- Drops the control sequences. `shown` says that the last character was shown. Then text is shown
as well, even in the middle of a sequence, which the next control character takes up again; a
character beyond ASCII ends the sequence. -/
def dropControls (shown : Bool) (s : Sequence) : List Char → List Char
  | [] => []
  | c :: cs =>
    if shown && isVisible c then
      c :: dropControls true (if c ≤ '\x7f' then s else .outside) cs
    else if s.shows c then c :: dropControls true (s.next c) cs
    else dropControls false (s.next c) cs

def printable (text : String) : String := String.ofList (dropControls true .outside text.toList)

theorem isVisible_of_shows {s : Sequence} {c : Char} (h : s.shows c) : isVisible c := by
  cases s <;> simp_all [Sequence.shows, isVisible]

/-- Only visible characters are left. -/
theorem isVisible_of_mem_dropControls {c : Char} (cs : List Char) (shown : Bool) (s : Sequence)
    (h : c ∈ dropControls shown s cs) : isVisible c := by
  induction cs generalizing shown s with
  | nil => simp [dropControls] at h
  | cons d ds ih =>
    simp only [dropControls] at h
    split at h
    · rename_i hd
      rcases List.mem_cons.1 h with rfl | h
      · simp_all
      · exact ih _ _ h
    · split at h
      · rename_i hd
        rcases List.mem_cons.1 h with rfl | h
        · exact isVisible_of_shows hd
        · exact ih _ _ h
      · exact ih _ _ h

/-- A text of visible characters is left as it is. -/
theorem dropControls_eq_self (cs : List Char) (h : ∀ c ∈ cs, isVisible c) :
    dropControls true .outside cs = cs := by
  induction cs with
  | nil => rfl
  | cons c cs ih =>
    rw [List.forall_mem_cons] at h
    simp [dropControls, h.1, ih h.2]

end LinProg.Text

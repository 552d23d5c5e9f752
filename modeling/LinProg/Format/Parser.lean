import LinProg.Format.Frontier

/-!
Parsers with ordered choice.

A parser is a pair of functions. `read` gives the value and the place behind it, and `note` follows
the same path and moves the frontier at each rule that fails. The frontier has no influence on what
is read, so it is only worked out for a text that was not read.
-/

namespace LinProg.Format

structure Parser (β : Type) where
  read : Cursor → Option (β × Cursor)
  note : Cursor → Frontier → Frontier

namespace Parser

variable {β γ : Type}

protected def pure (value : β) : Parser β := ⟨fun c => some (value, c), fun _ f => f⟩

protected def bind (p : Parser β) (next : β → Parser γ) : Parser γ where
  read c := (p.read c).bind fun (value, c) => (next value).read c
  note c f :=
    match p.read c with
    | none => p.note c f
    | some (value, after) => (next value).note after (p.note c f)

instance : Monad Parser where
  pure := Parser.pure
  bind := Parser.bind

@[simp] theorem read_pure (value : β) (c : Cursor) : (pure value : Parser β).read c = some (value, c) :=
  rfl

@[simp] theorem read_bind (p : Parser β) (next : β → Parser γ) (c : Cursor) :
    (p >>= next).read c = (p.read c).bind fun (value, c) => (next value).read c := rfl

/-- Tries the second parser where the first one fails. -/
protected def orElse (p : Parser β) (q : Unit → Parser β) : Parser β where
  read c := (p.read c).or ((q ()).read c)
  note c f :=
    match p.read c with
    | none => (q ()).note c (p.note c f)
    | some _ => p.note c f

instance : OrElse (Parser β) := ⟨Parser.orElse⟩

/-- Takes a piece off the front of the text: `scan` gives its value and the count of its
characters. -/
def piece (scan : List Char → Option (β × Nat)) : Parser β where
  read c := (scan c.rest).map fun (value, n) => (value, c.advance n)
  note _ f := f

/-- The line of the present place. -/
def line : Parser Nat := ⟨fun c => some (c.line, c), fun _ f => f⟩

/-- A parser under the name of a rule, which is put on record where the parser fails. -/
def rule (name : Rule) (p : Parser β) : Parser β where
  read := p.read
  note c f :=
    let inner := p.note c f
    match p.read c with
    | none => inner.fail name c (f.countAt c)
    | some _ => inner

@[simp] theorem read_rule (name : Rule) (p : Parser β) (c : Cursor) :
    (rule name p).read c = p.read c := rfl

/-- As many values as can be read, up to the length of `limit`. -/
def readUpTo (p : Parser β) : List Char → Cursor → List β × Cursor
  | [], c => ([], c)
  | _ :: limit, c =>
    match p.read c with
    | none => ([], c)
    | some (value, after) =>
      let (values, last) := p.readUpTo limit after
      (value :: values, last)

def noteUpTo (p : Parser β) : List Char → Cursor → Frontier → Frontier
  | [], _, f => f
  | _ :: limit, c, f =>
    match p.read c with
    | none => p.note c f
    | some (_, after) => p.noteUpTo limit after (p.note c f)

/-- A limit for values that take at least one character each: one more than the text has room
for. -/
def limit (c : Cursor) : List Char := '.' :: c.rest

/-- As many values as can be read. Each one takes at least one character, which bounds their
count. -/
def many (p : Parser β) : Parser (List β) where
  read c := some (p.readUpTo (limit c) c)
  note c f := p.noteUpTo (limit c) c f

end Parser

end LinProg.Format

/-
  Buffers: a text and the position of its next reading.

  Key definitions include:
    * `Offside.Buffer`
    * `Offside.Buffer.read`
    * `Offside.Buffer.write`
-/

------------------------------------------------------------
-- Buffers
------------------------------------------------------------

namespace Offside

/- A text and how often it was read from. -/
structure Buffer where
  text : String
  position : Nat
  deriving DecidableEq, Repr, Inhabited

namespace Buffer

/- The buffer without text. -/
def empty : Buffer := ⟨"", 0⟩

/- Adds text at the end and starts reading from the front. -/
def write
    (b : Buffer)
    (text : String) :
    Buffer :=
  ⟨b.text ++ text, 0⟩

/- The buffer with one text. -/
def ofText
    (text : String) :
    Buffer :=
  empty.write text

/- The characters that are not read yet. -/
def unread
    (b : Buffer) :
    List Char :=
  b.text.toList.drop b.position

/- Moves the position, also past the end. -/
def move
    (b : Buffer)
    (n : Nat) :
    Buffer :=
  { b with position := b.position + n }

/- Reads one character; there is none past the end. -/
def read
    (b : Buffer) :
    Option Char × Buffer :=
  (b.unread.head?, b.move 1)

end Buffer

end Offside

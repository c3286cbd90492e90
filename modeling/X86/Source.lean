/-!
Byte sources. A source is a finite indexed family of bytes; a window shows the part of another
source from some offset on. Everything else reads a source through `Source.get?`.
-/

namespace X86

/-- A finite sequence of bytes with indexed access. An index is below the length by its type, so no
reader can access anything at or past the end; `Source.get?` is where an index is checked. -/
structure Source where
  length : Nat
  byte : Fin length → UInt8

namespace Source

def ofArray (bytes : Array UInt8) : Source where
  length := bytes.size
  byte i := bytes[i]

def isEmpty (s : Source) : Bool :=
  s.length == 0

def get? (s : Source) (i : Nat) : Option UInt8 :=
  if h : i < s.length then some (s.byte ⟨i, h⟩) else none

/-- The bytes at positions `first` up to and without `last`; positions past the end have none. -/
def slice (s : Source) (first last : Nat) : List UInt8 :=
  (List.range' first (last - first)).filterMap s.get?

@[simp] theorem get?_ofArray (bytes : Array UInt8) (i : Nat) :
    (ofArray bytes).get? i = bytes[i]? := by
  by_cases h : i < bytes.size
  · simp [get?, ofArray, h]
  · simp [get?, ofArray, h]

theorem get?_isSome {s : Source} {i : Nat} : (s.get? i).isSome ↔ i < s.length := by
  unfold get?
  split <;> simp_all

@[simp] theorem slice_self (s : Source) (i : Nat) : s.slice i i = [] := by
  simp [slice]

end Source

/-- The part of `inner` from `offset` on. -/
structure Window where
  inner : Source
  offset : Nat

namespace Window

def toSource (w : Window) : Source where
  length := w.inner.length - w.offset
  byte i := w.inner.byte ⟨w.offset + i.val, by omega⟩

@[simp] theorem length_toSource (w : Window) : w.toSource.length = w.inner.length - w.offset := rfl

@[simp] theorem get?_toSource (w : Window) (i : Nat) :
    w.toSource.get? i = w.inner.get? (w.offset + i) := by
  by_cases h : w.offset + i < w.inner.length
  · have h' : i < w.inner.length - w.offset := by omega
    simp [Source.get?, toSource, h, h']
  · have h' : ¬ i < w.inner.length - w.offset := by omega
    simp [Source.get?, toSource, h, h']

end Window

/-- The view of `s` from `offset` on, as a source of its own. -/
def Source.window (s : Source) (offset : Nat) : Source :=
  (Window.mk s offset).toSource

end X86

import Mathlib

/-!
# The format of component objects

`components/lib/cobj_format.c`: a header, the tables of sections, symbols and capabilities, and the contents of
the sections. Sizes and offsets are 32-bit words.
-/
namespace SuperGlue.Source.Cobj.Format
open Function List

def word (n : Nat) : Nat := n % 2 ^ 32

def cobjSectUninit : Nat := 0

def cobjSectZeros : Nat := 8

def has (flags mark : Nat) : Bool := flags &&& mark != 0

structure Sect where
  flags : Nat
  offset : Nat
  vaddr : Nat
  bytes : Nat

structure Header where
  nsect : Nat
  nsymb : Nat
  ncap : Nat
  size : Nat
  sects : Nat → Sect

/-- The sizes of the header and the tables. -/
def tablesSz (nsect nsymb ncap : Nat) : Nat := 88 + nsect * 16 + nsymb * 8 + ncap * 24

def cobjCreate (nsect sectSz nsymb ncap space sz : Nat) : Option Header :=
  let totSz := word (sectSz + tablesSz nsect nsymb ncap)
  if space = 0 ∨ sz < totSz then none else some ⟨nsect, nsymb, ncap, totSz, fun _ => ⟨0, 0, 0, 0⟩⟩

def cobjSectContentOffset (h : Header) : Nat := word (tablesSz h.nsect h.nsymb h.ncap)

/-- The offset that `cobj_sect_init` gives a section. -/
def initOffset (h : Header) : Nat → Option Nat
  | 0 => some (cobjSectContentOffset h)
  | i + 1 =>
    let s := h.sects i
    if has s.flags cobjSectUninit then none
    else some (if has s.flags cobjSectZeros then s.offset else word (s.offset + s.bytes))

/-- The arguments of `cobj_sect_init`. -/
structure Init where
  idx : Nat
  flags : Nat
  vaddr : Nat
  size : Nat

def cobjSectInit (h : Header) (c : Init) : Option Header :=
  if h.nsect ≤ c.idx then none
  else (initOffset h c.idx).bind fun offset =>
    if !has c.flags cobjSectZeros && h.size < word (offset + c.size) then none
    else some { h with sects := update h.sects c.idx ⟨c.flags, offset, c.vaddr, c.size⟩ }

/-- The contents of a section, as their offset in the object. -/
def cobjSectContents (h : Header) (i : Nat) : Option Nat :=
  let s := h.sects i
  if h.nsect ≤ i || has s.flags cobjSectUninit || has s.flags cobjSectZeros then none else some s.offset

def cobjVaddrGet (h : Header) (vaddr : Nat) : Option Nat :=
  ((range h.nsect).find? fun i =>
    let s := h.sects i
    s.vaddr ≤ vaddr && vaddr < word (s.vaddr + s.bytes)).bind fun i =>
      (cobjSectContents h i).map (· + (vaddr - (h.sects i).vaddr))

end SuperGlue.Source.Cobj.Format

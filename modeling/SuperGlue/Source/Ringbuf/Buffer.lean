import SuperGlue.Lib.Memory

/-!
# The ring buffer

`include/cringbuf.h`: bytes between `head`, the oldest one, and `tail`, the place of the next one. Each copy
is at most up to the end of the memory, so a call makes two. A failed assertion is `none`; the assertions that
pointers are not null are left out. With `cautious`, which is `CRINGBUF_CAUTIOUS`, bytes are cleared when they
are taken out and a place that is written to has to be clear.
-/
namespace SuperGlue.Source.Ringbuf.Buffer
open Lib.Memory

/-- `struct cringbuf` with the `struct __cringbuf` it points to. -/
structure Cringbuf where
  sz : Int
  head : Int
  tail : Int
  buffer : Int → UInt8

/-- `sizeof(struct __cringbuf)`. -/
def headerSize : Int := 8

def cringbufInit (buffer : Int → UInt8) (allocSz : Int) : Cringbuf := ⟨allocSz - headerSize, 0, 0, buffer⟩

variable (rb : Cringbuf)

def cringbufEmpty : Bool := rb.head == rb.tail

def cringbufSz : Int :=
  if rb.head ≤ rb.tail then rb.tail - rb.head else rb.sz - (rb.head - rb.tail)

def cringbufEmptySz : Int := rb.sz - 1 - cringbufSz rb

def cringbufFull : Option Bool :=
  if cringbufSz rb ≤ rb.sz - 1 then some (cringbufSz rb == rb.sz - 1) else none

/-- Where the bytes are and how many of them up to `amnt`, or `none` for NULL. -/
def cringbufActiveExtent (amnt : Int) : Option (Int × Int) :=
  if cringbufEmpty rb then none
  else
    let len := if rb.head < rb.tail then rb.tail - rb.head else rb.sz - rb.head
    some (rb.head, if amnt < len then amnt else len)

/-- Where there is room and for how much up to `amnt`, or `some none` for NULL. -/
def cringbufInactiveExtent (amnt : Int) : Option (Option (Int × Int)) :=
  (cringbufFull rb).map fun full =>
    if full then none
    else
      let len := if rb.head ≤ rb.tail then rb.sz - rb.tail else rb.head - rb.tail - 1
      some (rb.tail, if amnt < len then amnt else len)

def cringbufDelete (amnt : Int) : Option Cringbuf :=
  match cringbufActiveExtent rb amnt with
  | none => none
  | some (_, l) =>
    let nhead := rb.head + l
    if l ≤ amnt ∧ nhead ≤ rb.sz then some { rb with head := if nhead = rb.sz then 0 else nhead } else none

def cringbufAdd (amnt : Int) : Option Cringbuf :=
  match cringbufInactiveExtent rb amnt with
  | none | some none => none
  | some (some (_, l)) =>
    if l ≤ amnt ∧ rb.tail + l ≤ rb.sz then
      let ntail := if rb.tail + l = rb.sz then 0 else rb.tail + l
      if ntail ≠ rb.head ∧ ntail < rb.sz then some { rb with tail := ntail } else none
    else none

def ringbufConsumeSome (cautious : Bool) (rb : Cringbuf) (amnt : Int) : Option (Cringbuf × List UInt8) :=
  match cringbufActiveExtent rb amnt with
  | none => some (rb, [])
  | some (t, l) =>
    (cringbufDelete rb l).map fun rb' =>
      (if cautious then { rb' with buffer := store rb'.buffer t (List.replicate l.toNat 0) } else rb',
        load rb.buffer t l.toNat)

/-- The result is how many of the bytes were stored. -/
def ringbufProduceSome (cautious : Bool) (rb : Cringbuf) (b : List UInt8) (amnt : Int) : Option (Cringbuf × Int) :=
  match cringbufInactiveExtent rb amnt with
  | none => none
  | some none => some (rb, 0)
  | some (some (t, l)) =>
    if cautious && (load rb.buffer t l.toNat).any (· != 0) then none
    else
      let rb := { rb with buffer := store rb.buffer t (b.take l.toNat) }
      if l + rb.tail ≤ rb.sz then
        match cringbufAdd rb l with
        | none => none
        | some rb => if rb.tail < rb.sz then some (rb, l) else none
      else none

/-- The bytes that are copied out; their number is the result. -/
def cringbufConsume (cautious : Bool) (rb : Cringbuf) (amnt : Int) : Option (Cringbuf × List UInt8) :=
  match ringbufConsumeSome cautious rb amnt with
  | none => none
  | some (rb, b) =>
    let left := amnt - b.length
    if left ≠ 0 then (ringbufConsumeSome cautious rb left).map fun (rb, more) => (rb, b ++ more)
    else some (rb, b)

def cringbufProduce (cautious : Bool) (rb : Cringbuf) (b : List UInt8) (amnt : Int) : Option (Cringbuf × Int) :=
  match ringbufProduceSome cautious rb b amnt with
  | none => none
  | some (rb, l) =>
    let left := amnt - l
    if left ≠ 0 then
      (ringbufProduceSome cautious rb (b.drop (amnt - left).toNat) left).map fun (rb, l) =>
        (rb, amnt - (left - l))
    else some (rb, amnt - left)

end SuperGlue.Source.Ringbuf.Buffer

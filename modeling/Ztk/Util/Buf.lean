import Mathlib

/-!
# Reference-counted buffers

`ztk_buf` of `buf.c`.  A buffer has an address, and the heap maps the addresses
of live buffers to their contents.  `data` is the memory behind the header, so
its length is `cap`; the first `len` bytes are the payload.

Where the memory comes from (a pool of the poller, the shared pool, `malloc`) is
not modelled: an allocation gives memory of at least the size asked for, with
any contents, or fails.  The last `ztk_buf_unref` gives the memory back, and the
address is not used again.
-/

namespace Ztk.Util

/-- `ztk_buf`. -/
structure Buf where
  refcnt : Int
  len : Nat
  data : List UInt8

/-- `b->cap`. -/
def Buf.cap (b : Buf) : Nat := b.data.length

/-- The live buffers, and the address of the next one. -/
structure BufHeap where
  buf : Nat → Option Buf
  next : Nat

namespace BufHeap

/-- `ztk_buf_alloc` and `ztk_buf_alloc_local`, from memory that the allocator
returned. -/
def bufAlloc (h : BufHeap) (cap : Nat) (mem : Option (List UInt8)) : Option Nat × BufHeap :=
  if cap = 0 then (none, h)
  else
    match mem with
    | none => (none, h)
    | some data =>
        (some h.next, ⟨Function.update h.buf h.next (some ⟨1, 0, data⟩), h.next + 1⟩)

/-- An assignment to a live buffer. -/
def modify (h : BufHeap) (b : Nat) (f : Buf → Buf) : BufHeap :=
  { h with buf := Function.update h.buf b ((h.buf b).map f) }

/-- `ztk_buf_ref`. -/
def bufRef (h : BufHeap) (b : Nat) : BufHeap :=
  h.modify b fun x => { x with refcnt := x.refcnt + 1 }

/-- `ztk_buf_unref`. -/
def bufUnref (h : BufHeap) (b : Nat) : BufHeap :=
  match h.buf b with
  | none => h
  | some x =>
      if x.refcnt = 1 then { h with buf := Function.update h.buf b none }
      else h.modify b fun x => { x with refcnt := x.refcnt - 1 }

/-- `ztk_buf_len`. -/
def bufLen (h : BufHeap) (b : Nat) : Nat := ((h.buf b).map Buf.len).getD 0

/-- `ztk_buf_data`. -/
def bufData (h : BufHeap) (b : Nat) : List UInt8 := ((h.buf b).map Buf.data).getD []

/-- `ztk_buf_set_len`. -/
def bufSetLen (h : BufHeap) (b len : Nat) : BufHeap :=
  h.modify b fun x => if x.cap < len then x else { x with len := len }

/-- `memcpy((void *)ztk_buf_data(b), data, len)`. -/
def memcpy (h : BufHeap) (b : Nat) (data : List UInt8) : BufHeap :=
  h.modify b fun x => { x with data := data ++ x.data.drop data.length }

@[simp] theorem modify_self (h : BufHeap) (b : Nat) (f : Buf → Buf) :
    (h.modify b f).buf b = (h.buf b).map f := by
  simp [modify]

theorem modify_of_ne (h : BufHeap) {b c : Nat} (f : Buf → Buf) (hne : c ≠ b) :
    (h.modify b f).buf c = h.buf c := by
  simp [modify, hne]

end BufHeap

end Ztk.Util

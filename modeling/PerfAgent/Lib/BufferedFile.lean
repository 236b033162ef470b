import Mathlib.Data.List.Basic

/-!
# Writing to a file through a buffer

A file that is open for writing, on a disk that may fail at any write, and a buffer in front of it.  The buffer keeps
the first error and takes nothing after it.

`Sound` is what a client needs: as long as the buffer has no error, the file and the buffer together have what was
written; and if it has one, a write to the file has failed.
-/

namespace PerfAgent

open List

/-- What happens at each write to the disk: it succeeds, or fails after some bytes. -/
abbrev Disk := ℕ → Option ℕ

structure OpenFile where
  bytes : List UInt8 := []
  offset : ℕ := 0
  /-- How many writes there were. -/
  writes : ℕ := 0
  /-- One of them has failed. -/
  failed : Bool := false
deriving DecidableEq

namespace OpenFile

def maxOffset : ℕ := 9223372036854775807

/-- Replace the bytes from the offset on, as far as there are new ones. -/
def put (f : OpenFile) (p : List UInt8) : OpenFile :=
  { f with
    bytes := f.bytes.take f.offset ++ p ++ f.bytes.drop (f.offset + p.length)
    offset := f.offset + p.length
    writes := f.writes + 1 }

/-- Write, and say how many bytes were written and whether there was no error. -/
def write (disk : Disk) (f : OpenFile) (p : List UInt8) : OpenFile × ℕ × Bool :=
  match disk f.writes with
  | some n => ({ f.put (p.take n) with failed := true }, (p.take n).length, false)
  | none =>
    if maxOffset < f.offset + p.length then ({ f with writes := f.writes + 1, failed := true }, 0, false)
    else (f.put p, p.length, true)

def seekStart (f : OpenFile) : OpenFile := { f with offset := 0 }

variable {disk : Disk}

theorem write_failed {f : OpenFile} {p : List UInt8} (h : (f.write disk p).2.2 = false) :
    (f.write disk p).1.failed = true := by
  unfold write at h ⊢
  cases hdisk : disk f.writes with
  | some n => rfl
  | none =>
    rw [hdisk] at h
    by_cases hmax : maxOffset < f.offset + p.length
    · simp only [if_pos hmax]
    · simp only [if_neg hmax] at h
      cases h

theorem write_ok {f : OpenFile} {p : List UInt8} (h : (f.write disk p).2.2 = true) :
    f.offset + p.length ≤ maxOffset ∧ f.write disk p = (f.put p, p.length, true) := by
  unfold write at h ⊢
  cases hdisk : disk f.writes with
  | some n =>
    rw [hdisk] at h
    cases h
  | none =>
    rw [hdisk] at h
    by_cases hmax : maxOffset < f.offset + p.length
    · simp only [if_pos hmax] at h
      cases h
    · simp only [if_neg hmax, and_true]
      exact Nat.not_lt.mp hmax

theorem put_of_end {f : OpenFile} (h : f.offset = f.bytes.length) (p : List UInt8) :
    (f.put p).bytes = f.bytes ++ p ∧ (f.put p).offset = (f.put p).bytes.length := by
  have hbytes : (f.put p).bytes = f.bytes ++ p := by
    change f.bytes.take f.offset ++ p ++ f.bytes.drop (f.offset + p.length) = _
    rw [h, take_length, drop_eq_nil_of_le (Nat.le_add_right _ _), append_nil]
  refine ⟨hbytes, ?_⟩
  rw [hbytes, List.length_append, ← h]
  rfl

end OpenFile

structure BufferedFile where
  file : OpenFile := {}
  buffer : List UInt8 := []
  /-- A write to the file has failed. -/
  err : Bool := false
deriving DecidableEq

namespace BufferedFile

def bufferSize : ℕ := 4096

def flush (disk : Disk) (b : BufferedFile) : BufferedFile :=
  if b.err ∨ b.buffer = [] then b
  else
    match b.file.write disk b.buffer with
    | (file, n, ok) => { file, buffer := b.buffer.drop n, err := !ok }

def writeThrough (disk : Disk) (b : BufferedFile) (p : List UInt8) : BufferedFile × ℕ :=
  match b.file.write disk p with
  | (file, n, ok) => ({ b with file := file, err := !ok }, n)

def writeEmpty (disk : Disk) (b : BufferedFile) (p : List UInt8) : BufferedFile × ℕ :=
  if p.length ≤ bufferSize then ({ b with buffer := p }, p.length) else b.writeThrough disk p

/-- Write, and say how many bytes were taken; the error is in the buffer. -/
def write (disk : Disk) (b : BufferedFile) (p : List UInt8) : BufferedFile × ℕ :=
  if b.err then (b, 0)
  else if b.buffer.length + p.length ≤ bufferSize then ({ b with buffer := b.buffer ++ p }, p.length)
  else if b.buffer = [] then b.writeThrough disk p
  else
    let n := bufferSize - b.buffer.length
    let full := { b with buffer := b.buffer ++ p.take n }.flush disk
    if full.err then (full, (p.take n).length)
    else
      let rest := full.writeEmpty disk (p.drop n)
      (rest.1, (p.take n).length + rest.2)

def writeAll (disk : Disk) (b : BufferedFile) (ps : List (List UInt8)) : BufferedFile :=
  ps.foldl (fun b p => (b.write disk p).1) b

structure Appended (b : BufferedFile) (all : List UInt8) : Prop where
  offset : b.file.offset = b.file.bytes.length
  bytes : b.file.bytes ++ b.buffer = all
  fits : b.file.bytes.length ≤ OpenFile.maxOffset
  unfailed : b.file.failed = false

/-- The buffer has an error if and only if a write has failed, and nothing is lost without one. -/
structure Sound (b : BufferedFile) (all : List UInt8) : Prop where
  appended : b.err = false → b.Appended all
  failed : b.err = true → b.file.failed = true

section Spec

variable (disk : Disk) {b : BufferedFile} {all : List UInt8}

theorem writeThrough_sound (h : b.Appended all) (hbuffer : b.buffer = []) (p : List UInt8) :
    (b.writeThrough disk p).1.Sound (all ++ p) ∧
    ((b.writeThrough disk p).1.err = false → (b.writeThrough disk p).2 = p.length) := by
  unfold writeThrough
  cases hok : (b.file.write disk p).2.2 with
  | false =>
    refine ⟨⟨?_, fun _ => OpenFile.write_failed hok⟩, ?_⟩ <;> simp [hok]
  | true =>
    obtain ⟨hfits, hwrite⟩ := OpenFile.write_ok hok
    rw [hwrite]
    refine ⟨⟨fun _ => ?_, nofun⟩, fun _ => rfl⟩
    obtain ⟨hput, hend⟩ := OpenFile.put_of_end h.offset p
    have hbytes := h.bytes
    rw [hbuffer, append_nil] at hbytes
    refine ⟨hend, ?_, ?_, h.unfailed⟩
    · change (b.file.put p).bytes ++ b.buffer = _
      rw [hput, hbytes, hbuffer, append_nil]
    · change (b.file.put p).bytes.length ≤ _
      rw [hput, List.length_append, ← h.offset]
      exact hfits

theorem flush_sound (h : b.Sound all) :
    (b.flush disk).Sound all ∧ ((b.flush disk).err = false → (b.flush disk).buffer = []) := by
  unfold flush
  by_cases hskip : b.err = true ∨ b.buffer = []
  · rw [if_pos hskip]
    refine ⟨h, fun herr => hskip.resolve_left ?_⟩
    rw [herr]
    exact Bool.false_ne_true
  · rw [if_neg hskip]
    have herr : b.err = false := Bool.eq_false_iff.mpr (not_or.mp hskip).1
    have happ := h.appended herr
    cases hok : (b.file.write disk b.buffer).2.2 with
    | false =>
      refine ⟨⟨?_, fun _ => OpenFile.write_failed hok⟩, ?_⟩ <;> simp [hok]
    | true =>
      obtain ⟨hfits, hwrite⟩ := OpenFile.write_ok hok
      rw [hwrite]
      have hnil : b.buffer.drop b.buffer.length = [] := drop_length
      refine ⟨⟨fun _ => ?_, nofun⟩, fun _ => hnil⟩
      obtain ⟨hput, hend⟩ := OpenFile.put_of_end happ.offset b.buffer
      refine ⟨hend, ?_, ?_, happ.unfailed⟩
      · change (b.file.put b.buffer).bytes ++ b.buffer.drop b.buffer.length = _
        rw [hput, hnil, append_nil, happ.bytes]
      · change (b.file.put b.buffer).bytes.length ≤ _
        rw [hput, List.length_append, ← happ.offset]
        exact hfits

theorem Appended.buffer (h : b.Appended all) (p : List UInt8) :
    ({ b with buffer := b.buffer ++ p } : BufferedFile).Appended (all ++ p) where
  offset := h.offset
  bytes := by
    rw [← h.bytes, append_assoc]
  fits := h.fits
  unfailed := h.unfailed

theorem writeEmpty_sound (h : b.Appended all) (herr : b.err = false) (hbuffer : b.buffer = []) (p : List UInt8) :
    (b.writeEmpty disk p).1.Sound (all ++ p) ∧
    ((b.writeEmpty disk p).1.err = false → (b.writeEmpty disk p).2 = p.length) := by
  unfold writeEmpty
  by_cases hfits : p.length ≤ bufferSize
  · rw [if_pos hfits]
    have happ := h.buffer p
    rw [hbuffer, nil_append] at happ
    exact ⟨⟨fun _ => happ, fun hno => absurd hno (by simp [herr])⟩, fun _ => rfl⟩
  · rw [if_neg hfits]
    exact writeThrough_sound disk h hbuffer p

theorem write_sound (h : b.Sound all) (p : List UInt8) :
    (b.write disk p).1.Sound (all ++ p) ∧ ((b.write disk p).1.err = false → (b.write disk p).2 = p.length) := by
  unfold write
  by_cases herr : b.err = true
  · rw [if_pos herr]
    exact ⟨⟨fun hno => absurd (hno.symm.trans herr) Bool.false_ne_true, h.failed⟩,
      fun hno => absurd (hno.symm.trans herr) Bool.false_ne_true⟩
  rw [if_neg herr]
  have happ := h.appended (Bool.eq_false_iff.mpr herr)
  by_cases hfits : b.buffer.length + p.length ≤ bufferSize
  · rw [if_pos hfits]
    exact ⟨⟨fun _ => happ.buffer p, fun hno => absurd hno herr⟩, fun _ => rfl⟩
  rw [if_neg hfits]
  by_cases hempty : b.buffer = []
  · rw [if_pos hempty]
    exact writeThrough_sound disk happ hempty p
  rw [if_neg hempty]
  -- the buffer is filled and flushed, and the rest goes on from an empty one
  have hfull : ({ b with buffer := b.buffer ++ p.take (bufferSize - b.buffer.length) } : BufferedFile).Sound
      (all ++ p.take (bufferSize - b.buffer.length)) := ⟨fun _ => happ.buffer _, fun hno => absurd hno herr⟩
  obtain ⟨hflush, hnil⟩ := flush_sound disk hfull
  generalize hgen : ({ b with buffer := b.buffer ++ p.take (bufferSize - b.buffer.length) } : BufferedFile).flush disk =
    full at hflush hnil
  simp only [hgen]
  by_cases hfailed : full.err = true
  · rw [if_pos hfailed]
    exact ⟨⟨fun hno => absurd (hno.symm.trans hfailed) Bool.false_ne_true, hflush.failed⟩,
      fun hno => absurd (hno.symm.trans hfailed) Bool.false_ne_true⟩
  · rw [if_neg hfailed]
    have hok := Bool.eq_false_iff.mpr hfailed
    obtain ⟨hrest, hcount⟩ := writeEmpty_sound disk (hflush.appended hok) hok (hnil hok)
      (p.drop (bufferSize - b.buffer.length))
    rw [append_assoc, take_append_drop] at hrest
    refine ⟨hrest, fun hno => ?_⟩
    rw [hcount hno, ← List.length_append, take_append_drop]

theorem writeAll_append (b : BufferedFile) (ps qs : List (List UInt8)) :
    b.writeAll disk (ps ++ qs) = (b.writeAll disk ps).writeAll disk qs := foldl_append

theorem writeAll_of_fits (herr : b.err = false) (ps : List (List UInt8))
    (hfits : b.buffer.length + ps.flatten.length ≤ bufferSize) :
    b.writeAll disk ps = { b with buffer := b.buffer ++ ps.flatten } := by
  induction ps generalizing b with
  | nil =>
    rw [flatten_nil, append_nil]
    rfl
  | cons p ps ih =>
    rw [flatten_cons, List.length_append, ← Nat.add_assoc] at hfits
    have hwrite : (b.write disk p).1 = { b with buffer := b.buffer ++ p } := by
      unfold write
      rw [if_neg (by simp [herr]), if_pos (Nat.le_trans (Nat.le_add_right _ _) hfits)]
    have hrest := @ih { b with buffer := b.buffer ++ p } herr (by rw [List.length_append]; exact hfits)
    rw [flatten_cons, ← append_assoc, ← hrest, ← hwrite]
    rfl

theorem writeAll_new_of_fits (file : OpenFile) {ps : List (List UInt8)} (hall : ps.flatten = all)
    (hfits : all.length ≤ bufferSize) : ({ file } : BufferedFile).writeAll disk ps = { file, buffer := all } := by
  subst hall
  have hbuffered := @writeAll_of_fits disk { file } rfl ps (by simpa using hfits)
  rw [hbuffered]
  rfl

theorem writeAll_sound (h : b.Sound all) (ps : List (List UInt8)) : (b.writeAll disk ps).Sound (all ++ ps.flatten) := by
  induction ps generalizing b all with
  | nil =>
    rw [flatten_nil, append_nil]
    exact h
  | cons p ps ih =>
    rw [flatten_cons, ← append_assoc]
    exact ih (write_sound disk h p).1

end Spec

end BufferedFile

end PerfAgent

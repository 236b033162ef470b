import PerfAgent.Gpuprobe.CubinChannel

/-!
# What the cubin channel answers

Every way through `handle` counts the offer once and replies once, and what it refuses leaves
the sink as it was.  A reply of `K` says that the module is held, and that is so for a
duplicate, and for a module that was stored and stayed.  The module store bounds its bytes by
itself, and a module larger than the bound is stored, dropped again and acknowledged: so the
channel is truthful exactly where no module that passes the checks is larger than the store
that is behind it.
-/

namespace PerfAgent.Gpuprobe

open Gpu List

/-! ## The sink -/

namespace CubinSink

def heldBytes : CubinSink → Nat
  | .modules s => s.byCRC.sum fun e => e.bytes.length
  | .mem s => s.seen.sum fun b => b.length

def Rep : CubinSink → Prop
  | .modules s => s.Rep ∧ 1 ≤ s.capacity
  | .mem s => s.bytes = (s.seen.sum fun b => b.length : Nat)

theorem sum_byCRC {s : ModuleStore} (h : s.Rep) :
    ((s.byCRC.sum fun e => e.bytes.length : Nat) : Int) = s.liveBytes := by
  have hsum : s.byCRC.sum (fun e => e.bytes.length) = (s.lru.map fun e => e.bytes.length).sum := by
    have hvalues : s.byCRC.values.Perm s.lru := by
      have hp := h.same.map Sigma.snd
      rwa [map_map, show (Sigma.snd ∘ fun e : ModuleEntry => (⟨e.crc, e⟩ : Sigma fun _ : Nat =>
        ModuleEntry)) = id from rfl, map_id] at hp
    exact (hvalues.map _).sum_eq
  rw [hsum, h.bytes]
  induction s.lru with
  | nil => rfl
  | cons e l ih =>
    rw [map_cons, sum_cons, map_cons, sum_cons, ← ih]
    exact Int.natCast_add _ _

theorem Rep.residentBytes {k : CubinSink} (h : k.Rep) : k.residentBytes = k.heldBytes := by
  cases k with
  | modules s => exact (sum_byCRC h.1).symm
  | mem s => exact h

theorem hasCubin_snd (k : CubinSink) (crc : Nat) : (k.hasCubin crc).2 = k.holds crc := by
  cases k with
  | modules s =>
    show (s.has crc).2 = (s.byCRC.find? crc).isSome
    unfold ModuleStore.has
    split
    · next h => rw [h]; rfl
    · next h => rw [h]; rfl
  | mem s => rfl

theorem hasCubin_of_not_holds {k : CubinSink} {crc : Nat} (h : k.holds crc = false) : k.hasCubin crc = (k, false) := by
  cases k with
  | modules s =>
    have hnone : s.byCRC.find? crc = none := Option.isNone_iff_eq_none.mp (by simpa [holds] using h)
    have hhas : s.has crc = (s, false) := by
      unfold ModuleStore.has
      rw [hnone]
    show (CubinSink.modules (s.has crc).1, (s.has crc).2) = _
    rw [hhas]
  | mem s => exact Prod.ext rfl h

theorem Rep.hasCubin {k : CubinSink} (h : k.Rep) (crc : Nat) : (k.hasCubin crc).1.Rep ∧
    (k.hasCubin crc).1.heldBytes = k.heldBytes ∧ ∀ c, (k.hasCubin crc).1.holds c = k.holds c := by
  cases k with
  | modules s =>
    have hhas : ((s.has crc).1.Rep ∧ 1 ≤ (s.has crc).1.capacity) ∧ (s.has crc).1.byCRC = s.byCRC := by
      unfold ModuleStore.has
      split
      · exact ⟨h, rfl⟩
      · next e hf => exact ⟨⟨h.1.touch hf, h.2⟩, rfl⟩
    refine ⟨hhas.1, ?_, fun c => ?_⟩
    · show (s.has crc).1.byCRC.sum _ = s.byCRC.sum _
      rw [hhas.2]
    · show ((s.has crc).1.byCRC.find? c).isSome = (s.byCRC.find? c).isSome
      rw [hhas.2]
  | mem s => exact ⟨h, rfl, fun _ => rfl⟩

variable (parse : List UInt8 → Except String Cubin)

theorem putCubin_modules {s : ModuleStore} {crc : Nat} (hno : s.byCRC.find? crc = none)
    (b : List UInt8) : (CubinSink.modules s).putCubin parse crc b =
      .ok (.modules (s.insert crc b (parse b)).evictLocked.1) := by
  have hheld : s.putHeld crc = none := by
    unfold ModuleStore.putHeld
    rw [hno]
    rfl
  have hput : putModule parse s crc b = ((s.insert crc b (parse b)).evictLocked.1, (parse b).map fun _ => ()) := by
    unfold putModule
    rw [hheld]
    simp only [ModuleStore.putParsed, hheld]
  show Except.ok (CubinSink.modules (putModule parse s crc b).1) = _
  rw [hput]

/-- A module that is not held is stored: it is held afterwards unless the store is too small
for it alone, and the store has grown by its bytes at most. -/
theorem Rep.putCubin {k k' : CubinSink} (h : k.Rep) {crc : Nat} (hno : k.holds crc = false)
    {b : List UInt8} (hput : k.putCubin parse crc b = .ok k') : k'.Rep ∧ k'.heldBytes ≤ k.heldBytes + b.length ∧
      (k'.holds crc = true ↔ ∀ s, k = .modules s → b.length ≤ s.maxBytes) := by
  cases k with
  | modules s =>
    obtain ⟨hrep, hcap⟩ := h
    have hnone : s.byCRC.find? crc = none :=
      Option.isNone_iff_eq_none.mp (by simpa [holds] using hno)
    rw [putCubin_modules parse hnone] at hput
    cases hput
    have hins := hrep.insert hnone b (parse b)
    obtain ⟨hrep', hshrunk, -, -⟩ :=
      ModuleStore.evictLocked_spec hins (ByRecency.of_nodup hins.crcs_nodup)
    refine ⟨⟨hrep', hshrunk.capacity ▸ hcap⟩, ?_, ?_⟩
    · have hle := hshrunk.liveBytes_le hins hrep'
      have hlive : (s.insert crc b (parse b)).liveBytes = s.liveBytes + b.length := rfl
      rw [hlive, ← sum_byCRC hrep', ← sum_byCRC hrep] at hle
      exact_mod_cast hle
    · refine (ModuleStore.held_of_insert_iff hrep hcap hnone b (parse b)).trans ?_
      constructor
      · intro hle s' hs'
        cases hs'
        exact hle
      · exact fun hall => hall s rfl
  | mem s =>
    have hput : (s.put crc b).map CubinSink.mem = .ok k' := hput
    have hnone : s.seen.find? crc = none := Option.isNone_iff_eq_none.mp (by simpa [holds] using hno)
    rw [MemCubinStore.put, hnone, Option.isSome_none, if_neg Bool.false_ne_true] at hput
    split_ifs at hput
    · cases hput
    · cases hput
      have hsum := AssocMap.sum_put_of_find?_eq_none (f := fun b : List UInt8 => b.length) (v := b) hnone
      have hbytes : s.bytes = (s.seen.sum fun b => b.length : Nat) := h
      refine ⟨?_, ?_, ?_⟩
      · show s.bytes + b.length = ((s.seen.put crc b).sum fun b => b.length : Nat)
        rw [hsum, hbytes]
        exact_mod_cast (Nat.add_comm _ _)
      · show (s.seen.put crc b).sum (fun b => b.length) ≤ _
        rw [hsum]
        exact (Nat.add_comm _ _).le
      · refine iff_of_true ?_ (fun s' hs' => by cases hs')
        show ((s.seen.put crc b).find? crc).isSome = true
        rw [AssocMap.find?_put_self]
        rfl

end CubinSink

variable {hdr : CubinHeader} {fd : Descriptor} (st : CubinStats)

/-! ## One offer -/

namespace CubinListener

def Authorised (l : CubinListener) (o : CubinOffer) : Prop :=
  ∃ pid uid, o.creds = .ok (pid, uid) ∧ o.admitted = true ∧ l.requireUID.any (uid ≠ ·) = false ∧
    ¬(l.pid ≠ 0 ∧ pid ≠ l.pid) ∧ o.maps = .ok true

/-- What has to be so before anything is mapped: the header decoded beside a descriptor with all
four seals, whose file has the declared size, and that is within the ceiling. -/
structure Mappable (l : CubinListener) (o : CubinOffer) (hdr : CubinHeader) (fd : Descriptor) :
    Prop where
  received : recvCubinOffer o.message = .ok (hdr, fd)
  sealed : ∃ s, fd.seals = .ok s ∧ s.all = true
  size_eq : fd.bytes.length = hdr.size
  within : hdr.size ≤ l.maxBytes

structure Passes (l : CubinListener) (o : CubinOffer) (hdr : CubinHeader) (fd : Descriptor) : Prop
    extends Mappable l o hdr fd where
  authorised : l.Authorised o
  new : l.sink.holds hdr.crc = false
  total : ((max l.sink.residentBytes 0).toNat + hdr.size) % 2 ^ 64 ≤ l.totalBytes
  fstat : fd.fstat = none
  mmap : fd.mmap = none
  munmap : fd.munmap = none

def CountedAs (before after : CubinStats) (c : CubinCount) : Prop :=
  ∀ c', after.get c' = before.get c' + if c' = c then 1 else 0

structure Refused (l : CubinListener) (o : CubinOffer) (r : CubinListener × CubinReply)
    (c : CubinCount) : Prop where
  reason : c ≠ .received ∧ c ≠ .duplicate
  reply : r.2 = .refused
  counted : CountedAs l.stats r.1.stats c
  listener : r.1 = { l with stats := r.1.stats }
  mapped : r.1.stats.mapped = l.stats.mapped ∨ ∃ hdr fd, l.Mappable o hdr fd

theorem get_count (c : CubinCount) : CountedAs st (st.count c) c := by
  intro c'
  cases c <;> cases c' <;> rfl

theorem mapped_count (c : CubinCount) : (st.count c).mapped = st.mapped := by
  cases c <;> rfl

theorem refused_reject (l : CubinListener) (o : CubinOffer) {c : CubinCount}
    (hc : c ≠ .received ∧ c ≠ .duplicate) (reason : String) :
    Refused l o (l.reject c reason) c := by
  refine ⟨hc, rfl, fun c' => ?_, rfl, .inl (mapped_count l.stats c)⟩
  rw [← get_count l.stats c c']
  cases c' <;> rfl

theorem refused_reject_mapped {l : CubinListener} {o : CubinOffer} (h : l.Mappable o hdr fd) {c : CubinCount}
    (hc : c ≠ .received ∧ c ≠ .duplicate) (reason : String) : Refused l o
      (({ l with stats := { l.stats with mapped := l.stats.mapped + 1 } } : CubinListener).reject c reason) c := by
  refine ⟨hc, rfl, fun c' => ?_, rfl, .inr ⟨hdr, fd, h⟩⟩
  rw [← get_count l.stats c c']
  cases c <;> cases c' <;> rfl

structure Duplicate (l : CubinListener) (o : CubinOffer) (r : CubinListener × CubinReply)
    (hdr : CubinHeader) (fd : Descriptor) : Prop where
  received : recvCubinOffer o.message = .ok (hdr, fd)
  held : l.sink.holds hdr.crc = true
  result : r = ({ l with
    sink := (l.sink.hasCubin hdr.crc).1
    stats := l.stats.count .duplicate }, .ok)

structure Stored (parse : List UInt8 → Except String Cubin) (l : CubinListener) (o : CubinOffer)
    (r : CubinListener × CubinReply) (hdr : CubinHeader) (fd : Descriptor) : Prop where
  passes : l.Passes o hdr fd
  reply : r.2 = .ok
  counted : CountedAs l.stats r.1.stats .received
  listener : r.1 = { l with sink := r.1.sink, stats := r.1.stats }
  sink : l.sink.putCubin parse hdr.crc fd.bytes = .ok r.1.sink

variable {parse : List UInt8 → Except String Cubin} {l : CubinListener} {o : CubinOffer}

theorem takePayload_cases (hauth : l.Authorised o) (hrecv : recvCubinOffer o.message = .ok (hdr, fd)) (pid : Nat) :
    (∃ c, Refused l o (l.takePayload parse pid hdr fd) c) ∨ Duplicate l o (l.takePayload parse pid hdr fd) hdr fd ∨
      Stored parse l o (l.takePayload parse pid hdr fd) hdr fd := by
  unfold takePayload
  cases hseals : verifyCubinSeals fd with
  | error e => exact .inl ⟨_, refused_reject l o (by decide) _⟩
  | ok u =>
    have hsealed : ∃ s, fd.seals = .ok s ∧ s.all = true := by
      unfold verifyCubinSeals at hseals
      split at hseals
      · cases hseals
      · next s hs =>
          split at hseals
          · next hall => exact ⟨s, hs, hall⟩
          · cases hseals
    cases hheld : l.sink.holds hdr.crc with
    | true =>
      have hhas : l.sink.hasCubin hdr.crc = ((l.sink.hasCubin hdr.crc).1, true) :=
        Prod.ext rfl ((l.sink.hasCubin_snd hdr.crc).trans hheld)
      rw [hhas]
      exact .inr (.inl ⟨hrecv, hheld, rfl⟩)
    | false =>
      rw [CubinSink.hasCubin_of_not_holds hheld]
      simp only [Bool.false_eq_true, if_false]
      by_cases hmax : hdr.size > l.maxBytes
      · rw [if_pos hmax]
        exact .inl ⟨_, refused_reject l o (by decide) _⟩
      rw [if_neg hmax]
      by_cases htotal : ((max l.sink.residentBytes 0).toNat + hdr.size) % 2 ^ 64 > l.totalBytes
      · rw [if_pos htotal]
        exact .inl ⟨_, refused_reject l o (by decide) _⟩
      rw [if_neg htotal]
      cases hstat : fd.fstat with
      | some e => exact .inl ⟨_, refused_reject l o (by decide) _⟩
      | none =>
        by_cases hsize : fd.bytes.length ≠ hdr.size
        · simp only [if_pos hsize]
          exact .inl ⟨_, refused_reject l o (by decide) _⟩
        simp only [if_neg hsize]
        have hmap : l.Mappable o hdr fd :=
          ⟨hrecv, hsealed, not_not.mp hsize, Nat.not_lt.mp hmax⟩
        cases hmmap : fd.mmap with
        | some e => exact .inl ⟨_, refused_reject_mapped hmap (by decide) _⟩
        | none =>
          cases hunmap : fd.munmap with
          | some e => exact .inl ⟨_, refused_reject_mapped hmap (by decide) _⟩
          | none =>
            simp only
            cases hput : l.sink.putCubin parse hdr.crc fd.bytes with
            | error e => exact .inl ⟨_, refused_reject_mapped hmap (by decide) _⟩
            | ok sink =>
              refine .inr (.inr ⟨⟨hmap, hauth, hheld, Nat.not_lt.mp htotal, hstat,
                hmmap, hunmap⟩, rfl, fun c' => ?_, rfl, hput⟩)
              cases c' <;> rfl

theorem handle_cases (parse : List UInt8 → Except String Cubin) (l : CubinListener)
    (o : CubinOffer) : (∃ c, Refused l o (l.handle parse o) c) ∨ (∃ hdr fd, Duplicate l o (l.handle parse o) hdr fd) ∨
      ∃ hdr fd, Stored parse l o (l.handle parse o) hdr fd := by
  unfold handle
  cases hcreds : o.creds with
  | error e => exact .inl ⟨_, refused_reject l o (by decide) _⟩
  | ok peer =>
    obtain ⟨pid, uid⟩ := peer
    simp only
    split_ifs with hadmit huid hpid
    · exact .inl ⟨_, refused_reject l o (by decide) _⟩
    · exact .inl ⟨_, refused_reject l o (by decide) _⟩
    · exact .inl ⟨_, refused_reject l o (by decide) _⟩
    · cases hmaps : o.maps with
      | error e => exact .inl ⟨_, refused_reject l o (by decide) _⟩
      | ok mapped =>
        cases mapped with
        | false => exact .inl ⟨_, refused_reject l o (by decide) _⟩
        | true =>
          have hauth : l.Authorised o := by
            refine ⟨pid, uid, hcreds, ?_, ?_, hpid, hmaps⟩
            · simpa using hadmit
            · simpa using huid
          cases hrecv : recvCubinOffer o.message with
          | error e => exact .inl ⟨_, refused_reject l o (by decide) _⟩
          | ok msg =>
            obtain ⟨hdr, fd⟩ := msg
            have hpayload : (∃ c, Refused l o (l.takePayload parse pid hdr fd) c) ∨ _ :=
              takePayload_cases hauth hrecv pid
            rcases hpayload with h | h | h
            · exact .inl h
            · exact .inr (.inl ⟨hdr, fd, h⟩)
            · exact .inr (.inr ⟨hdr, fd, h⟩)

/-! ## Runs -/

/-- The channel tells the truth about an offer: one counter, the reply of that counter, a module
that is held where the reply says so, a sink left alone where it does not, nothing mapped that
was not checked, and the total ceiling kept. -/
structure Truthful (parse : List UInt8 → Except String Cubin) (l : CubinListener)
    (o : CubinOffer) : Prop where
  counted : ∃ c, CountedAs l.stats (l.handle parse o).1.stats c ∧
    ((l.handle parse o).2 = .ok ↔ c = .received ∨ c = .duplicate)
  held : (l.handle parse o).2 = .ok → ∃ hdr fd, recvCubinOffer o.message = .ok (hdr, fd) ∧
    (l.handle parse o).1.sink.holds hdr.crc = true
  unchanged : (l.handle parse o).2 = .refused → (l.handle parse o).1.sink = l.sink
  mapped : (l.handle parse o).1.stats.mapped ≠ l.stats.mapped → ∃ hdr fd, l.Mappable o hdr fd
  bounded : (l.handle parse o).1.sink.heldBytes ≤ l.totalBytes

/-- A module that passes the checks is not larger than the module store that is behind the
channel, if there is one. -/
def Fits (l : CubinListener) (o : CubinOffer) : Prop :=
  ∀ s hdr fd, l.sink = .modules s → l.Passes o hdr fd → hdr.size ≤ s.maxBytes

structure Sound (l : CubinListener) : Prop where
  rep : l.sink.Rep
  bounded : l.sink.heldBytes ≤ l.totalBytes
  total : l.totalBytes < 2 ^ 63

theorem Sound.stored (h : l.Sound) (hs : Stored parse l o (l.handle parse o) hdr fd) :
    (l.handle parse o).1.sink.Rep ∧ (l.handle parse o).1.sink.heldBytes ≤ l.totalBytes ∧
      ((l.handle parse o).1.sink.holds hdr.crc = true ↔ ∀ s, l.sink = .modules s → hdr.size ≤ s.maxBytes) := by
  obtain ⟨hrep, hle, hheld⟩ := h.rep.putCubin parse hs.passes.new hs.sink
  have htotal := hs.passes.total
  have hres : (max l.sink.residentBytes 0).toNat = l.sink.heldBytes := by
    rw [h.rep.residentBytes]
    omega
  have hfits := fd.fits
  have hbounded := h.bounded
  have hmax := h.total
  rw [hs.passes.size_eq] at hle hheld hfits
  rw [hres, Nat.mod_eq_of_lt (by omega)] at htotal
  exact ⟨hrep, hle.trans htotal, hheld⟩

theorem Sound.handle (h : l.Sound) (parse : List UInt8 → Except String Cubin) (o : CubinOffer) :
    (l.handle parse o).1.Sound := by
  rcases handle_cases parse l o with ⟨c, hr⟩ | ⟨hdr, fd, hd⟩ | ⟨hdr, fd, hs⟩
  · rw [hr.listener]
    exact ⟨h.rep, h.bounded, h.total⟩
  · rw [hd.result]
    obtain ⟨hrep, hbytes, -⟩ := h.rep.hasCubin hdr.crc
    exact ⟨hrep, hbytes.trans_le h.bounded, h.total⟩
  · obtain ⟨hrep, hle, -⟩ := h.stored hs
    have htotal : (l.handle parse o).1.totalBytes = l.totalBytes := by rw [hs.listener]
    exact ⟨hrep, htotal ▸ hle, htotal ▸ h.total⟩

theorem reply_of_passes (parse : List UInt8 → Except String Cubin) {s : ModuleStore} (hsink : l.sink = .modules s)
    (h : l.Passes o hdr fd) : (l.handle parse o).2 = .ok := by
  obtain ⟨pid, uid, hcreds, hadmit, huid, hpid, hmaps⟩ := h.authorised
  obtain ⟨seals, hseals, hall⟩ := h.sealed
  have hverify : verifyCubinSeals fd = .ok () := by
    unfold verifyCubinSeals
    rw [hseals]
    exact if_pos hall
  unfold handle
  simp only [hcreds, hadmit, huid, hpid, hmaps, h.received, reduceCtorEq, Bool.false_eq_true, if_false]
  unfold takePayload
  simp only [hverify, CubinSink.hasCubin_of_not_holds h.new, Bool.false_eq_true, if_false,
    Nat.not_lt.mpr h.within, Nat.not_lt.mpr h.total, h.fstat, h.size_eq, h.mmap, h.munmap, ne_eq,
    not_true_eq_false]
  rw [hsink]
  rfl

theorem Sound.truthful_iff (h : l.Sound) (parse : List UInt8 → Except String Cubin)
    (o : CubinOffer) : Truthful parse l o ↔ l.Fits o := by
  rcases handle_cases parse l o with ⟨c, hr⟩ | ⟨hdr, fd, hd⟩ | ⟨hdr, fd, hs⟩
  · refine iff_of_true ⟨⟨c, hr.counted, ?_⟩, fun hok => ?_, fun _ => ?_, fun hne => ?_, ?_⟩ ?_
    · refine iff_of_false ?_ (not_or.mpr hr.reason)
      rw [hr.reply]
      intro hc
      cases hc
    · rw [hr.reply] at hok
      cases hok
    · rw [hr.listener]
    · exact hr.mapped.resolve_left hne
    · rw [hr.listener]
      exact h.bounded
    · intro s hdr fd hsink hp
      have hreply := reply_of_passes parse hsink hp
      rw [hr.reply] at hreply
      cases hreply
  · obtain ⟨-, hbytes, hholds⟩ := h.rep.hasCubin hdr.crc
    refine iff_of_true ⟨⟨.duplicate, ?_, ?_⟩, fun _ => ⟨hdr, fd, hd.received, ?_⟩, fun hc => ?_, fun hne => ?_, ?_⟩ ?_
    · rw [hd.result]
      exact get_count l.stats .duplicate
    · rw [hd.result]
      exact iff_of_true rfl (.inr rfl)
    · rw [hd.result]
      exact (hholds hdr.crc).trans hd.held
    · rw [hd.result] at hc
      cases hc
    · rw [hd.result] at hne
      exact absurd (mapped_count l.stats .duplicate) hne
    · rw [hd.result]
      exact hbytes.trans_le h.bounded
    · intro s hdr' fd' hsink hp
      have heq := hp.received
      rw [hd.received] at heq
      cases heq
      have hnew := hp.new
      rw [hd.held] at hnew
      cases hnew
  · obtain ⟨-, hle, hheld⟩ := h.stored hs
    constructor
    · intro ht s hdr' fd' hsink hp
      obtain ⟨hdr'', fd'', hrecv, hholds⟩ := ht.held hs.reply
      have heq := hp.received
      rw [hrecv] at heq
      cases heq
      rw [hs.passes.received] at hrecv
      cases hrecv
      exact hheld.mp hholds s hsink
    · intro hfits
      refine ⟨⟨.received, hs.counted, iff_of_true hs.reply (.inl rfl)⟩,
        fun _ => ⟨hdr, fd, hs.passes.received, ?_⟩, fun hc => ?_,
        fun _ => ⟨hdr, fd, hs.passes.toMappable⟩, hle⟩
      · exact hheld.mpr fun s hsink => hfits s hdr fd hsink hs.passes
      · rw [hs.reply] at hc
        cases hc

end CubinListener

open CubinListener

variable (bounds : Option (Int × Int))

/-- The sink of a new consumer: a new module store with the bounds it is given, or the map. -/
def newSink : CubinSink :=
  cubinSinkFor (bounds.map fun b => newModuleStore b.1 b.2)

theorem ceiling_lt (configured : Int64) {default : Nat} (h : default < 2 ^ 63) :
    ceiling configured default < 2 ^ 63 := by
  unfold ceiling
  split_ifs with hpos
  · have := configured.toInt_lt
    omega
  · exact h

theorem sound_build (pid : Nat) (shim : Nat × Nat × Nat) (requireUID : Option Nat)
    (cubinMaxBytes cubinTotalBytes : Int64) :
    (buildCubinListener (newSink bounds) pid shim requireUID cubinMaxBytes cubinTotalBytes).Sound := by
  refine ⟨?_, ?_, ceiling_lt _ (by decide)⟩
  · cases bounds with
    | none => rfl
    | some b =>
      refine ⟨ModuleStore.rep_new b.1 b.2, ?_⟩
      simp only [newModuleStore, defaultModuleStoreCapacity]
      split <;> omega
  · cases bounds with
    | none => exact Nat.zero_le _
    | some b => exact Nat.zero_le _

/-- In every run of offers the channel tells the truth about each exactly when no module that
passes the checks is larger than the module store behind it. -/
theorem cubin_channel_truthful_iff (parse : List UInt8 → Except String Cubin)
    (bounds : Option (Int × Int)) (pid : Nat) (shim : Nat × Nat × Nat) (requireUID : Option Nat)
    (cubinMaxBytes cubinTotalBytes : Int64) (offers : List CubinOffer) :
    Along (fun l o => (l.handle parse o).1) (CubinListener.Truthful parse)
        (buildCubinListener (newSink bounds) pid shim requireUID cubinMaxBytes cubinTotalBytes)
        offers ↔
      Along (fun l o => (l.handle parse o).1) Fits
        (buildCubinListener (newSink bounds) pid shim requireUID cubinMaxBytes cubinTotalBytes)
        offers := by
  have hall : ∀ (offers : List CubinOffer) (l : CubinListener), l.Sound →
      (Along (fun l o => (l.handle parse o).1) (CubinListener.Truthful parse) l offers ↔
        Along (fun l o => (l.handle parse o).1) Fits l offers) := by
    intro offers
    induction offers with
    | nil => exact fun _ _ => Iff.rfl
    | cons o offers ih =>
      exact fun l h => and_congr (h.truthful_iff parse o) (ih _ (h.handle parse o))
  exact hall offers _ (sound_build ..)

def eightBytes : Descriptor where
  seals := .ok ⟨true, true, true, true⟩
  bytes := [1, 2, 3, 4, 5, 6, 7, 8]
  fits := by decide

def offerOfEight : CubinOffer where
  creds := .ok (40, 1000)
  message :=
    { first := .ok ([0x43, 0x55, 0x42, 0x31, 1, 0, 0, 0, 8, 0, 0, 0, 0, 0, 0, 0, 7, 0, 0, 0, 0, 0,
        0, 0], [eightBytes]) }

def smallStore : CubinListener :=
  buildCubinListener (newSink (some (1, 4))) 0 (8, 2, 4242) none 0 0

theorem not_cubin_channel_truthful : ¬∀ (parse : List UInt8 → Except String Cubin)
    (bounds : Option (Int × Int)) (pid : Nat) (shim : Nat × Nat × Nat) (requireUID : Option Nat)
    (cubinMaxBytes cubinTotalBytes : Int64) (offers : List CubinOffer),
    Along (fun l o => (l.handle parse o).1) (CubinListener.Truthful parse)
      (buildCubinListener (newSink bounds) pid shim requireUID cubinMaxBytes cubinTotalBytes)
      offers := by
  intro h
  have ht := (h (fun _ => .error "not an ELF file") (some (1, 4)) 0 (8, 2, 4242) none 0 0
    [offerOfEight]).1
  have hreply : (smallStore.handle (fun _ => .error "not an ELF file") offerOfEight).2 = .ok := by
    decide +kernel
  obtain ⟨hdr, fd, hrecv, hheld⟩ := ht.held hreply
  have hcrc : (recvCubinOffer offerOfEight.message).toOption.map (fun m => m.1.crc) = some 7 := by
    decide +kernel
  rw [hrecv] at hcrc
  have hseven : hdr.crc = 7 := Option.some.inj hcrc
  rw [hseven] at hheld
  have hgone : (smallStore.handle (fun _ => .error "not an ELF file") offerOfEight).1.sink.holds 7 =
      false := by decide +kernel
  exact Bool.false_ne_true (hgone.symm.trans hheld)

end PerfAgent.Gpuprobe

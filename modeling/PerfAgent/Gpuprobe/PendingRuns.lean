import Mathlib.Data.List.Induction
import PerfAgent.Gpuprobe.Batches

/-!
# Runs of the parked stacks

The positions that are still ahead of the head are the table's queue: its live ones are the keys that wait, by
latest park.  The consumed ones stay in the slice until they are half of it, so that it can be longer than
`reclaimOrder` says.
-/

namespace PerfAgent.Gpuprobe

open Gpu List

def newPendingStacks (capacity : Int) : PendingStacks where
  capacity := capacityOr capacity defaultSampledStackCapacity

namespace PendingStacks

theorem newPendingStacks_pos (capacity : Int) : 0 < (newPendingStacks capacity).capacity := by
  show 0 < capacityOr capacity defaultSampledStackCapacity
  unfold capacityOr
  split
  · exact Nat.succ_pos _
  · omega

def ahead (p : PendingStacks) : List StackPos := p.order.drop p.head

def queue (p : PendingStacks) : List CorrelationID := (p.ahead.filter p.isLive).map (·.key)

structure Ordered (p : PendingStacks) : Prop where
  head_le : p.head ≤ p.order.length
  ascending : p.order.Pairwise (·.gen < ·.gen)
  gen_le : ∀ pos ∈ p.order, pos.gen ≤ p.gen
  listed : ∀ key st, p.byKey.find? key = some st → { key := key, gen := st.gen } ∈ p.ahead

variable {p : PendingStacks}

theorem isLive_iff {pos : StackPos} :
    p.isLive pos = true ↔ ∃ st, p.byKey.find? pos.key = some st ∧ st.gen = pos.gen := by
  simp [isLive, Option.any_eq_true]

theorem isLive_del (key : CorrelationID) (pos : StackPos) :
    { p with byKey := p.byKey.del key }.isLive pos = (decide (pos.key ≠ key) && p.isLive pos) := by
  by_cases hk : pos.key = key
  · simp [isLive, hk]
  · simp [isLive, AssocMap.find?_del_of_ne _ hk, hk]

theorem filter_queue (p : PendingStacks) (key : CorrelationID) (l : List StackPos) :
    (l.filter fun pos => decide (pos.key ≠ key) && p.isLive pos).map (·.key) =
      ((l.filter p.isLive).map (·.key)).filter (· ≠ key) := by
  rw [filter_map, filter_filter]
  rfl

theorem queue_del (key : CorrelationID) : { p with byKey := p.byKey.del key }.queue = p.queue.filter (· ≠ key) := by
  rw [queue, queue, ← filter_queue]
  simp only [funext (isLive_del (p := p) key)]
  rfl

namespace Ordered

theorem mem_queue (h : Ordered p) {key : CorrelationID} : key ∈ p.queue ↔ (p.byKey.find? key).isSome = true := by
  simp only [queue, mem_map, mem_filter, isLive_iff, Option.isSome_iff_exists]
  constructor
  · rintro ⟨pos, ⟨-, st, hst, -⟩, rfl⟩
    exact ⟨st, hst⟩
  · rintro ⟨st, hst⟩
    exact ⟨_, ⟨h.listed key st hst, st, hst, rfl⟩, rfl⟩

theorem live_unique (h : Ordered p) {pos : StackPos} {i : Nat} (hi : p.order[i]? = some pos)
    (hlive : p.isLive pos = true) :
    p.head ≤ i ∧ ∀ j pos', p.order[j]? = some pos' → p.isLive pos' = true → pos'.key = pos.key → j = i := by
  obtain ⟨st, hst, hgen⟩ := isLive_iff.mp hlive
  have hone : ∀ j pos', p.order[j]? = some pos' → pos'.gen = st.gen → j = i := by
    intro j pos' hj hgen'
    obtain ⟨hilt, rfl⟩ := List.getElem?_eq_some_iff.mp hi
    obtain ⟨hjlt, rfl⟩ := List.getElem?_eq_some_iff.mp hj
    have hlt := pairwise_iff_getElem.mp h.ascending
    obtain hji | hji | hji := Nat.lt_trichotomy j i
    · have := hlt j i hjlt hilt hji
      omega
    · exact hji
    · have := hlt i j hilt hjlt hji
      omega
  obtain ⟨k, hk⟩ := mem_iff_getElem?.mp (h.listed _ st hst)
  rw [ahead, getElem?_drop] at hk
  refine ⟨?_, fun j pos' hj hlive' hkey => ?_⟩
  · have := hone _ _ hk rfl
    omega
  · obtain ⟨st', hst', hgen'⟩ := isLive_iff.mp hlive'
    rw [hkey, hst] at hst'
    cases hst'
    exact hone j pos' hj hgen'.symm

theorem ahead_ascending (h : Ordered p) : p.ahead.Pairwise (·.gen < ·.gen) :=
  h.ascending.sublist (drop_sublist _ _)

theorem nodup_queue (h : Ordered p) : p.queue.Nodup := by
  rw [queue, List.Nodup, pairwise_map, pairwise_filter]
  refine h.ahead_ascending.imp fun {pos pos'} hlt hlive hlive' hkey => ?_
  obtain ⟨st, hst, hgen⟩ := isLive_iff.mp hlive
  obtain ⟨st', hst', hgen'⟩ := isLive_iff.mp hlive'
  rw [hkey, hst'] at hst
  cases hst
  omega

theorem size_eq (h : Ordered p) : p.byKey.size = p.queue.length := by
  have hperm : p.byKey.keys.Perm p.queue := by
    refine (perm_ext_iff_of_nodup p.byKey.keys_nodup h.nodup_queue).mpr fun key => ?_
    rw [h.mem_queue]
    exact AList.lookup_isSome.symm
  rw [← hperm.length_eq]
  exact (length_map _).symm

theorem of_sublist (h : Ordered p) {p' : PendingStacks} (hmap : p'.byKey = p.byKey) (hgen : p'.gen = p.gen)
    (hhead : p'.head ≤ p'.order.length) (horder : p'.order.Sublist p.order)
    (hahead : p'.ahead.filter p.isLive = p.ahead.filter p.isLive) : Ordered p' ∧ p'.queue = p.queue := by
  have hlive : p'.isLive = p.isLive := by
    funext pos
    rw [isLive, isLive, hmap]
  refine ⟨⟨hhead, h.ascending.sublist horder, fun pos hpos => ?_, fun key st hst => ?_⟩, ?_⟩
  · rw [hgen]
    exact h.gen_le pos (horder.subset hpos)
  · rw [hmap] at hst
    have hmem := mem_filter.mpr ⟨h.listed key st hst, isLive_iff.mpr ⟨st, hst, rfl⟩⟩
    rw [← hahead] at hmem
    exact (mem_filter.mp hmem).1
  · rw [queue, queue, hlive, hahead]

theorem compact (h : Ordered p) : Ordered p.compact ∧ p.compact.queue = p.queue := by
  unfold PendingStacks.compact
  split_ifs
  · exact ⟨h, rfl⟩
  · exact h.of_sublist rfl rfl (Nat.zero_le _) (drop_sublist _ _) rfl

theorem reclaimOrder (h : Ordered p) : Ordered p.reclaimOrder ∧ p.reclaimOrder.queue = p.queue ∧
    ((p.order.length - p.head ≤ 2 * p.capacity ∧ p.reclaimOrder = p) ∨
      (2 * p.capacity < p.order.length - p.head ∧ p.reclaimOrder.head = 0 ∧
        p.reclaimOrder.capacity = p.capacity ∧ p.reclaimOrder.order.length = p.queue.length)) := by
  unfold PendingStacks.reclaimOrder
  split_ifs with hle
  · exact ⟨h, rfl, .inl ⟨hle, rfl⟩⟩
  · have hkeep := @Ordered.of_sublist p h { p with order := p.ahead.filter p.isLive, head := 0 } rfl rfl
      (Nat.zero_le _) (filter_sublist.trans (drop_sublist _ _))
      (filter_filter.trans (by simp only [Bool.and_self]))
    exact ⟨hkeep.1, hkeep.2, .inr ⟨Nat.lt_of_not_le hle, rfl, rfl, by rw [queue, length_map]; rfl⟩⟩

theorem del (h : Ordered p) (key : CorrelationID) : Ordered { p with byKey := p.byKey.del key } :=
  ⟨h.head_le, h.ascending, h.gen_le, fun key' st hst => h.listed key' st (AssocMap.find?_del_eq_some.mp hst).2⟩

theorem put (h : Ordered p) (key : CorrelationID) (st : ResolvedStack) (hst : st.gen = p.gen + 1) :
    let p' := { p with
      gen := p.gen + 1
      byKey := p.byKey.put key st
      order := p.order ++ [{ key := key, gen := p.gen + 1 }] }
    Ordered p' ∧ p'.queue = p.queue.filter (· ≠ key) ++ [key] := by
  intro p'
  have hahead : p'.ahead = p.ahead ++ [{ key := key, gen := p.gen + 1 }] := drop_append_of_le_length h.head_le
  have hold : ∀ pos ∈ p.ahead, p'.isLive pos = (decide (pos.key ≠ key) && p.isLive pos) := by
    intro pos hpos
    have hgen := h.gen_le pos (mem_of_mem_drop hpos)
    by_cases hk : pos.key = key
    · have hne : p.gen + 1 ≠ pos.gen := by omega
      simp [p', isLive, hk, hst, hne]
    · simp [p', isLive, AssocMap.find?_put_of_ne _ _ hk, hk]
  have hnew : p'.isLive { key := key, gen := p.gen + 1 } = true := by
    simp [p', isLive, hst]
  refine ⟨⟨?_, ?_, ?_, ?_⟩, ?_⟩
  · show p.head ≤ (p.order ++ _).length
    rw [List.length_append]
    exact Nat.le_add_right_of_le h.head_le
  · refine pairwise_append.mpr ⟨h.ascending, pairwise_singleton _ _, fun pos hpos pos' hpos' => ?_⟩
    rw [mem_singleton.mp hpos']
    exact Nat.lt_succ_of_le (h.gen_le pos hpos)
  · intro pos hpos
    obtain hpos | hpos := mem_append.mp hpos
    · exact Nat.le_succ_of_le (h.gen_le pos hpos)
    · rw [mem_singleton.mp hpos]
  · intro key' st' hfind
    rw [hahead, mem_append]
    rw [AssocMap.find?_put] at hfind
    split at hfind
    · next hk =>
      cases hfind
      rw [hk, hst]
      exact .inr (mem_singleton_self _)
    · exact .inl (h.listed key' st' hfind)
  · rw [queue, hahead, filter_append, filter_congr hold, map_append, filter_queue]
    congr 1
    simp [hnew]

end Ordered

/-! ## An eviction -/

theorem walk_spec (p : PendingStacks) (l : List StackPos) (head : Nat) :
    (l.filter p.isLive = [] ∧ p.walk l head = (head + l.length, none)) ∨
      ∃ dead pos rest, l = dead ++ pos :: rest ∧ dead.filter p.isLive = [] ∧ p.isLive pos = true ∧
        p.walk l head = (head + dead.length + 1, some pos.key) := by
  induction l generalizing head with
  | nil => exact .inl ⟨rfl, rfl⟩
  | cons pos l ih =>
    rw [walk]
    split_ifs with hlive
    · exact .inr ⟨[], pos, l, rfl, rfl, hlive, rfl⟩
    · obtain ⟨hnone, hwalk⟩ | ⟨dead, pos', rest, rfl, hdead, hlive', hwalk⟩ := ih (head + 1)
      · refine .inl ⟨by rw [filter_cons_of_neg hlive, hnone], ?_⟩
        rw [hwalk, length_cons, Nat.add_assoc, Nat.add_comm 1]
      · refine .inr ⟨pos :: dead, pos', rest, rfl, by rw [filter_cons_of_neg hlive, hdead], hlive', ?_⟩
        rw [hwalk, length_cons, Nat.add_right_comm head]
        rfl

def Half (p : PendingStacks) : Prop := p.head = 0 ∨ p.head * 2 < p.order.length

structure Trims (p p' : PendingStacks) : Prop where
  capacity : p'.capacity = p.capacity
  order : p'.order.length ≤ p.order.length
  ahead : p'.ahead.length ≤ p.ahead.length
  half : p.Half → p'.Half

theorem Trims.refl (p : PendingStacks) : Trims p p := ⟨rfl, Nat.le_refl _, Nat.le_refl _, id⟩

theorem Trims.trans {p' p'' : PendingStacks} (h : Trims p p') (h' : Trims p' p'') : Trims p p'' :=
  ⟨h'.capacity.trans h.capacity, h'.order.trans h.order, h'.ahead.trans h.ahead, h'.half ∘ h.half⟩

theorem compact_trims (p : PendingStacks) :
    p.compact.capacity = p.capacity ∧ p.compact.order.length ≤ p.order.length ∧ p.compact.ahead = p.ahead ∧
      p.compact.Half := by
  unfold compact
  split_ifs with h
  · exact ⟨rfl, Nat.le_refl _, rfl, h⟩
  · exact ⟨rfl, (drop_sublist _ _).length_le, rfl, .inl rfl⟩

theorem Ordered.evictOldest (h : Ordered p) {key : CorrelationID} {waiting : List CorrelationID}
    (hq : p.queue = key :: waiting) :
    ∃ p', p.evictOldest = (true, p') ∧ Ordered p' ∧ p'.queue = waiting ∧ Trims p p' := by
  obtain ⟨hnone, -⟩ | ⟨dead, pos, rest, hahead, hdead, hlive, hwalk⟩ := walk_spec p p.ahead p.head
  · rw [queue, hnone] at hq
    cases hq
  have hqueue := hq
  rw [queue, hahead, filter_append, hdead, nil_append, filter_cons_of_pos hlive, map_cons] at hq
  obtain ⟨rfl, hrest⟩ := List.cons.inj hq
  have hlen : p.head + dead.length + 1 ≤ p.order.length := by
    have := congrArg List.length hahead
    have := h.head_le
    simp only [ahead, length_drop, List.length_append, length_cons] at *
    omega
  have hdrop : p.order.drop (p.head + dead.length + 1) = rest := by
    rw [Nat.add_assoc, ← drop_drop]
    show p.ahead.drop _ = rest
    rw [hahead, ← drop_drop, drop_left, drop_one, tail_cons]
  have hdead' : dead.filter (fun x => decide (x.key ≠ pos.key) && p.isLive x) = [] := by
    rw [← filter_filter, hdead]
    rfl
  -- the entry goes first, and the head is moved over positions that are then dead
  let moved := { p with head := p.head + dead.length + 1, byKey := p.byKey.del pos.key }
  have hmove : Ordered moved ∧ moved.queue = { p with byKey := p.byKey.del pos.key }.queue := by
    refine (h.del pos.key).of_sublist rfl rfl hlen (List.Sublist.refl _) ?_
    show List.filter _ (p.order.drop _) = List.filter _ p.ahead
    rw [hdrop, hahead, filter_append, funext (isLive_del pos.key), filter_cons_of_neg (by simp), hdead']
    rfl
  obtain ⟨hcap, horder, hsame, hhalf⟩ := compact_trims moved
  refine ⟨moved.compact, ?_, hmove.1.compact.1, ?_, hcap, horder, ?_, fun _ => hhalf⟩
  · rw [ahead] at hwalk
    simp only [PendingStacks.evictOldest, hwalk]
    rfl
  · rw [hmove.1.compact.2, hmove.2, queue_del, hqueue, filter_cons_of_neg (by simp)]
    refine filter_eq_self.mpr fun key hkey => ?_
    have hnodup := h.nodup_queue
    rw [hqueue, nodup_cons] at hnodup
    simp only [ne_eq, decide_eq_true_eq]
    rintro rfl
    exact hnodup.1 hkey
  · rw [hsame]
    show (p.order.drop _).length ≤ p.ahead.length
    rw [hdrop, hahead, List.length_append, length_cons]
    omega

theorem Ordered.evictLoop (n : Nat) (h : Ordered p) (hn : p.queue.length ≤ p.capacity + n) :
    Ordered (evictLoop n p).2 ∧ (evictLoop n p).2.queue = p.queue.drop (p.queue.length - p.capacity) ∧
      Trims p (evictLoop n p).2 := by
  induction n generalizing p with
  | zero =>
    refine ⟨h, ?_, .refl p⟩
    rw [Nat.sub_eq_zero_of_le (by omega), drop_zero]
    rfl
  | succ n ih =>
    rw [PendingStacks.evictLoop]
    split_ifs with hfull
    · rw [h.size_eq] at hfull
      obtain ⟨key, waiting, hq⟩ := exists_cons_of_length_pos (Nat.zero_lt_of_lt hfull)
      obtain ⟨p', hp', hord, hqueue, htrims⟩ := h.evictOldest hq
      rw [hp']
      rw [hq, length_cons] at hn hfull ⊢
      obtain ⟨hord', hqueue', htrims'⟩ := ih hord (by rw [hqueue, htrims.capacity]; omega)
      refine ⟨hord', ?_, htrims.trans htrims'⟩
      rw [hqueue', hqueue, htrims.capacity, Nat.succ_sub (by omega), drop_succ_cons]
    · rw [h.size_eq] at hfull
      rw [Nat.sub_eq_zero_of_le (Nat.le_of_not_lt hfull)]
      exact ⟨h, rfl, .refl p⟩

/-! ## The operations -/

structure Sound (p : PendingStacks) : Prop extends Ordered p where
  positive : 0 < p.capacity
  bounded : p.queue.length ≤ p.capacity
  window : p.ahead.length ≤ 2 * p.capacity
  half : p.Half

theorem length_ahead (p : PendingStacks) : p.ahead.length = p.order.length - p.head := length_drop

theorem Sound.order_lt (h : Sound p) : p.order.length < 4 * p.capacity := by
  have hwindow := h.window
  have hpos := h.positive
  rw [length_ahead] at hwindow
  obtain hzero | hhalf := h.half <;> omega

theorem newPendingStacks_sound (capacity : Int) : Sound (newPendingStacks capacity) :=
  ⟨⟨Nat.le_refl _, .nil, nofun, nofun⟩, newPendingStacks_pos capacity, Nat.zero_le _, Nat.zero_le _, .inl rfl⟩

theorem Sound.reclaimOrder (h : Sound p) : p.reclaimOrder = p := by
  obtain ⟨-, -, ⟨-, heq⟩ | ⟨hlt, -⟩⟩ := h.toOrdered.reclaimOrder
  · exact heq
  · exact absurd (p.length_ahead ▸ h.window) (Nat.not_le_of_lt hlt)

theorem Sound.take (h : Sound p) (key : CorrelationID) :
    Sound (p.take key).2 ∧ (p.take key).2.queue = p.queue.filter (· ≠ key) ∧ (p.take key).2.capacity = p.capacity ∧
      (p.take key).2.queue.length + (if (p.take key).1.isSome then 1 else 0) = p.queue.length := by
  have hmem : key ∈ p.queue ↔ _ := h.mem_queue
  unfold PendingStacks.take
  split
  · next hfind =>
    rw [hfind] at hmem
    have hnot : key ∉ p.queue := fun hin => nomatch hmem.mp hin
    refine ⟨h, (filter_eq_self.mpr fun key' hkey' => ?_).symm, rfl, rfl⟩
    simp only [ne_eq, decide_eq_true_eq]
    rintro rfl
    exact hnot hkey'
  · next st hfind =>
    have hdel := h.del key
    have hsize : { p with byKey := p.byKey.del key }.queue.length + 1 = p.queue.length := by
      rw [← hdel.size_eq, ← h.size_eq]
      exact (AssocMap.size_of_find? hfind).symm
    refine ⟨⟨hdel, h.positive, ?_, h.window, h.half⟩, queue_del key, rfl, hsize⟩
    exact (Nat.le_of_succ_le hsize.le).trans h.bounded

/-- Where a park leaves the slice short: the positions it does not drop are few, with the consumed ones. -/
def Prompt (p : PendingStacks) : Prop := p.order.length < p.head + 2 * p.capacity → p.order.length ≤ 2 * p.capacity

theorem Sound.insert (h : Sound p) (key : CorrelationID) (frames : List Frame) (period : Nat) :
    let p' := p.insert key frames period
    Ordered p' ∧ p'.queue = p.queue.filter (· ≠ key) ++ [key] ∧ p'.capacity = p.capacity ∧
      p'.ahead.length ≤ 2 * p.capacity ∧ p'.Half ∧ (p'.order.length ≤ 2 * p.capacity + 1 ↔ p.Prompt) := by
  intro p'
  have hput := h.put key { frames := frames, period := period, gen := p.gen + 1 } rfl
  have hwindow := h.window
  have hpos := h.positive
  have hhead := h.head_le
  have hqueue : (p.queue.filter (· ≠ key) ++ [key]).length ≤ p.capacity + 1 := by
    rw [List.length_append]
    exact Nat.add_le_add_right ((length_filter_le ..).trans h.bounded) 1
  obtain ⟨hord, hkeys, hspec⟩ := hput.1.reclaimOrder
  refine ⟨hord, hkeys.trans hput.2, ?_⟩
  rw [length_ahead] at hwindow
  obtain ⟨hle, heq⟩ | ⟨hlt, hzero, hcap, hlen⟩ := hspec
  · change (p.order ++ _).length - p.head ≤ 2 * p.capacity at hle
    rw [List.length_append, length_singleton] at hle
    have hlen : p'.order.length = p.order.length + 1 := by
      show (PendingStacks.reclaimOrder _).order.length = _
      rw [heq, List.length_append, length_singleton]
    have hhead' : p'.head = p.head := by
      show (PendingStacks.reclaimOrder _).head = _
      rw [heq]
    refine ⟨?_, ?_, ?_, ?_⟩
    · show (PendingStacks.reclaimOrder _).capacity = _
      rw [heq]
    · rw [length_ahead, hlen, hhead']
      exact hle
    · have := h.half
      rw [Half] at this ⊢
      omega
    · rw [Prompt, hlen]
      omega
  · change 2 * p.capacity < (p.order ++ _).length - p.head at hlt
    rw [List.length_append, length_singleton] at hlt
    rw [hput.2] at hlen
    have hlen' : p'.order.length ≤ p.capacity + 1 := hlen.le.trans hqueue
    refine ⟨hcap, ?_, .inl hzero, ?_⟩
    · rw [length_ahead]
      omega
    · rw [Prompt]
      omega

theorem Sound.park (h : Sound p) (key : CorrelationID) (frames : List Frame) (period : Nat) :
    let p' := (p.park key frames period).2
    let queue := p.queue.filter (· ≠ key) ++ [key]
    Sound p' ∧ p'.queue = queue.drop (queue.length - p.capacity) ∧ p'.capacity = p.capacity ∧
      (p.park key frames period).1 = (queue.length - p.capacity) + (if key ∈ p.queue then 1 else 0) ∧
      (p.Prompt → p'.order.length ≤ 2 * p.capacity + 1) := by
  intro p' queue
  obtain ⟨hord, hqueue, hcap, hwindow, hhalf, hprompt⟩ := h.insert key frames period
  have hcount := len_park p key frames period
  obtain ⟨hord', hqueue', htrims⟩ := hord.evictLoop (p.insert key frames period).byKey.size (by
    rw [hord.size_eq]
    exact Nat.le_add_left _ _)
  change Ordered p' at hord'
  change p'.queue = _ at hqueue'
  rw [hqueue, hcap] at hqueue'
  have hcap' : p'.capacity = p.capacity := htrims.capacity.trans hcap
  have hsize := len_insert p key frames period
  have hlen : p'.queue.length = queue.length - (queue.length - p.capacity) := by
    rw [hqueue', length_drop]
  refine ⟨⟨hord', hcap'.symm ▸ h.positive, ?_, ?_, htrims.half hhalf⟩, hqueue', hcap', ?_, fun hp => ?_⟩
  · omega
  · rw [hcap']
    exact htrims.ahead.trans hwindow
  · change _ + p'.byKey.size = p.byKey.size + 1 at hcount
    change (p.insert key frames period).byKey.size = p.byKey.size + _ at hsize
    rw [hord.size_eq, hqueue] at hsize
    rw [hord'.size_eq] at hcount
    change queue.length = _ at hsize
    simp only [h.mem_queue]
    split_ifs at hsize ⊢ <;> omega
  · exact htrims.order.trans (hprompt.mpr hp)

end PendingStacks

/-! ## Runs -/

inductive PendingOp where
  | park (key : CorrelationID) (frames : List Frame) (period : Nat)
  | take (key : CorrelationID)
  | reclaim

/-- A table, and beside it the keys that wait by latest park when the first of too many goes, and what the calls
came to. -/
structure PendingRun where
  table : PendingStacks
  waiting : List CorrelationID := []
  parks : Nat := 0
  takes : Nat := 0
  evicted : Nat := 0
  replaced : Nat := 0
  /-- What the parks have answered. -/
  counted : Nat := 0

namespace PendingRun

def step (r : PendingRun) : PendingOp → PendingRun
  | .park key frames period =>
    let queue := r.waiting.filter (· ≠ key) ++ [key]
    { r with
      table := (r.table.park key frames period).2
      waiting := queue.drop (queue.length - r.table.capacity)
      parks := r.parks + 1
      evicted := r.evicted + (queue.length - r.table.capacity)
      replaced := r.replaced + if key ∈ r.waiting then 1 else 0
      counted := r.counted + (r.table.park key frames period).1 }
  | .take key =>
    { r with
      table := (r.table.take key).2
      waiting := r.waiting.filter (· ≠ key)
      takes := r.takes + if (r.table.take key).1.isSome then 1 else 0 }
  | .reclaim => { r with table := r.table.reclaimOrder }

def run (capacity : Int) (ops : List PendingOp) : PendingRun :=
  ops.foldl step { table := newPendingStacks capacity }

structure Accounted (r : PendingRun) : Prop where
  size_le : r.table.byKey.size ≤ r.table.capacity
  live : ∀ key, (r.table.byKey.find? key).isSome = true ↔ key ∈ r.waiting
  position : ∀ key ∈ r.waiting,
    ∃! i : Nat, ∃ pos, r.table.order[i]? = some pos ∧ pos.key = key ∧ r.table.isLive pos = true
  fifo : r.table.queue = r.waiting
  parks : r.parks = r.takes + r.evicted + r.replaced + r.table.byKey.size
  counted : r.counted = r.evicted + r.replaced

structure Kept (r : PendingRun) : Prop where
  sound : r.table.Sound
  fifo : r.table.queue = r.waiting
  parks : r.parks = r.takes + r.evicted + r.replaced + r.waiting.length
  counted : r.counted = r.evicted + r.replaced

variable {r : PendingRun}

theorem Kept.accounts_for (h : Kept r) : Accounted r := by
  have hsize := h.sound.size_eq
  refine ⟨hsize.trans_le h.sound.bounded, fun key => ?_, fun key hkey => ?_, h.fifo, ?_, h.counted⟩
  · rw [← h.fifo]
    exact h.sound.mem_queue.symm
  · rw [← h.fifo, PendingStacks.queue, mem_map] at hkey
    obtain ⟨pos, hpos, rfl⟩ := hkey
    obtain ⟨hahead, hlive⟩ := mem_filter.mp hpos
    obtain ⟨i, hi⟩ := mem_iff_getElem?.mp (mem_of_mem_drop hahead)
    refine ⟨i, ⟨pos, hi, rfl, hlive⟩, ?_⟩
    rintro j ⟨pos', hj, hkey, hlive'⟩
    exact (h.sound.live_unique hi hlive).2 j pos' hj hlive' hkey
  · rw [hsize, h.fifo]
    exact h.parks

theorem Kept.step (h : Kept r) (op : PendingOp) : Kept (r.step op) ∧ (r.step op).table.capacity = r.table.capacity := by
  have hlen := h.sound.size_eq
  have hparks := h.parks
  have hcounted := h.counted
  cases op with
  | park key frames period =>
    obtain ⟨hsound, hqueue, hcap, hanswer, -⟩ := h.sound.park key frames period
    have hwas := PendingStacks.len_park r.table key frames period
    simp only [PendingStacks.len, hlen, hsound.size_eq] at hwas
    rw [h.fifo] at hqueue hanswer hwas
    refine ⟨⟨hsound, hqueue, ?_, ?_⟩, hcap⟩
    · rw [hqueue] at hwas
      dsimp only [PendingRun.step]
      omega
    · dsimp only [PendingRun.step]
      omega
  | take key =>
    obtain ⟨hsound, hqueue, hcap, hanswer⟩ := h.sound.take key
    rw [h.fifo] at hqueue hanswer
    refine ⟨⟨hsound, hqueue, ?_, hcounted⟩, hcap⟩
    dsimp only [PendingRun.step]
    rw [hqueue] at hanswer
    omega
  | reclaim =>
    have hsame := h.sound.reclaimOrder
    refine ⟨⟨?_, ?_, hparks, hcounted⟩, ?_⟩ <;> dsimp only [PendingRun.step] <;> rw [hsame]
    · exact h.sound
    · exact h.fifo

theorem run_concat (capacity : Int) (ops : List PendingOp) (op : PendingOp) :
    run capacity (ops ++ [op]) = (run capacity ops).step op := foldl_append ..

theorem kept (capacity : Int) (ops : List PendingOp) :
    Kept (run capacity ops) ∧ (run capacity ops).table.capacity = (newPendingStacks capacity).capacity := by
  induction ops using List.reverseRecOn with
  | nil => exact ⟨⟨PendingStacks.newPendingStacks_sound capacity, rfl, rfl, rfl⟩, rfl⟩
  | append_singleton ops op ih =>
    rw [run_concat]
    exact ⟨(ih.1.step op).1, (ih.1.step op).2.trans ih.2⟩

/-- In every run the entries, the queue and the counts agree, and the slice is shorter than four capacities.  It
keeps to the documented bound in a run whose parks find it short, and a park that does not find it so leaves it
longer before it evicts. -/
theorem accounted (capacity : Int) (ops : List PendingOp) :
    let r := run capacity ops
    Accounted r ∧ r.table.capacity = (newPendingStacks capacity).capacity ∧
      r.table.order.length < 4 * r.table.capacity ∧
      ((∀ before key frames period, before ++ [.park key frames period] <+: ops →
        (run capacity before).table.Prompt) → r.table.order.length ≤ 2 * r.table.capacity + 1) ∧
      ∀ key frames period,
        (r.table.insert key frames period).order.length ≤ 2 * r.table.capacity + 1 ↔ r.table.Prompt := by
  have hkept := (kept capacity ops).1
  refine ⟨hkept.accounts_for, (kept capacity ops).2, hkept.sound.order_lt, fun hprompt => ?_,
    fun key frames period => (hkept.sound.insert key frames period).2.2.2.2.2⟩
  clear hkept
  induction ops using List.reverseRecOn with
  | nil => exact Nat.zero_le _
  | append_singleton ops op ih =>
    have hsound := (kept capacity ops).1.sound
    have hle := ih fun before key frames period hbefore =>
      hprompt before key frames period (hbefore.trans (prefix_append ops [op]))
    rw [run_concat]
    cases op with
    | park key frames period =>
      obtain ⟨-, -, hcap, -, hshort⟩ := hsound.park key frames period
      show ((run capacity ops).table.park key frames period).2.order.length ≤
        2 * ((run capacity ops).table.park key frames period).2.capacity + 1
      rw [hcap]
      exact hshort (hprompt ops key frames period (prefix_refl _))
    | take key =>
      unfold PendingRun.step PendingStacks.take
      dsimp only
      split <;> exact hle
    | reclaim =>
      dsimp only [PendingRun.step]
      rw [hsound.reclaimOrder]
      exact hle

/-- With room for three: four of five stacks are gone from the front, and the slice then grows past seven. -/
theorem order_exceeds :
    let key := fun n : Nat => CorrelationID.mk "" n ""
    let pair := [PendingOp.park (key 6) [] 0, .take (key 6)]
    let r := run 3 (((List.range 5).map fun n => .park (key n) [] 0) ++
      [.take (key 3), .take (key 4)] ++ pair ++ pair ++ pair)
    2 * r.table.capacity + 1 < r.table.order.length := by
  decide +kernel

end PendingRun

end PerfAgent.Gpuprobe

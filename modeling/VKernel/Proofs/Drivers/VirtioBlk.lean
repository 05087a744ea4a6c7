import VKernel.Drivers.VirtioBlk

/-!
# `VKernel.Proofs.Drivers.VirtioBlk`: completions and the requests they belong to

`submit_request` gives up after a number of polls, and the request it leaves behind is
completed later all the same: into the bounce buffer and the status byte of whatever request
is on the ring then, and with a change of the used index that the next call takes for its own
completion (`late_completion_mistaken`).

As long as no request is started behind one that was given up (`NoneGivenUp`), at most one
request is on the ring. `Outstanding` follows it from the available ring over the device to the
used ring, and what the device does to the bounce buffer and the disk in its last step is the
chunk that the driver asked for (`Moved`). After a call has given up, the machine is `Stale`:
the device may still finish, but no further request is published.
-/

set_option autoImplicit false

namespace VKernel.Proofs.Drivers

open VKernel VKernel.Lib VKernel.Drivers

/-! ### The property -/

/-- A transfer that returned true: a read gave the caller the sectors it asked for, and after
a write the sectors hold the caller's bytes. -/
def Finished.Delivered (f : Finished) : Prop :=
  if f.call.write then
    readBytes f.disk (f.call.lba * VIRTIO_BLK_SECTOR_SIZE)
      (f.call.count * VIRTIO_BLK_SECTOR_SIZE) = f.call.buffer
  else f.received = readBytes f.disk (f.call.lba * VIRTIO_BLK_SECTOR_SIZE)
    (f.call.count * VIRTIO_BLK_SECTOR_SIZE)

/-- Every `submit_request` that returned true was for a request that the device has completed
with status OK, and every transfer that returned true delivered. -/
structure Matched (m : Machine) : Prop where
  returned : ∀ n, (n, true) ∈ m.returned → (n, VIRTIO_BLK_S_OK) ∈ m.completed
  finished : ∀ f ∈ m.finished, f.result = true → Finished.Delivered f

/-- The driver is at the start of `submit_request`. -/
def atSubmit (m : Machine) : Bool :=
  match m.phase with
  | .prepare _ => true
  | _ => false

/-- When `submit_request` starts, the completion of every earlier request was consumed. -/
def NoneGivenUp (m : Machine) : Label → Prop
  | .driver => atSubmit m = true → m.availIdx = m.lastUsedIdx
  | _ => True

instance (m : Machine) : ∀ l, Decidable (NoneGivenUp m l)
  | .driver => inferInstanceAs (Decidable (atSubmit m = true → m.availIdx = m.lastUsedIdx))
  | .call _ => inferInstanceAs (Decidable True)
  | .take => inferInstanceAs (Decidable True)
  | .complete _ _ _ => inferInstanceAs (Decidable True)

/-! ### The invariant -/

/-- The place of a chunk on the disk. -/
def Progress.base (p : Progress) : Nat := p.currentLba * VIRTIO_BLK_SECTOR_SIZE

/-- A transfer in progress: its position, and what is done of it. -/
structure Running (m : Machine) (p : Progress) : Prop where
  ok : p.call.Ok
  le : p.remaining ≤ p.call.count
  lba : p.currentLba = p.call.lba + (p.call.count - p.remaining)
  written : p.call.write = true →
    readBytes m.disk (p.call.lba * VIRTIO_BLK_SECTOR_SIZE) p.offset = p.call.buffer.take p.offset
  received : p.call.write = false →
    p.received = readBytes m.disk (p.call.lba * VIRTIO_BLK_SECTOR_SIZE) p.offset

/-- The bounce buffer holds the chunk of a write. -/
def Loaded (m : Machine) (p : Progress) : Prop :=
  p.call.write = true → readBytes m.bounce 0 p.bytes = p.chunkBytes

/-- The device has moved the chunk: the bounce buffer of a read holds the sectors, the sectors
of a write hold the chunk. -/
structure Moved (capacity : Nat) (m : Machine) (p : Progress) : Prop where
  inside : Progress.base p + p.bytes ≤ capacity * VIRTIO_BLK_SECTOR_SIZE
  data : if p.call.write then readBytes m.disk (Progress.base p) p.bytes = p.chunkBytes
    else readBytes m.bounce 0 p.bytes = readBytes m.disk (Progress.base p) p.bytes

/-- Nothing is on the ring. -/
structure Quiet (m : Machine) : Prop where
  lt : m.availIdx < U16
  used : m.usedIdx = m.availIdx
  last : m.lastUsedIdx = m.availIdx
  takenIdx : m.takenIdx = m.availIdx
  taken : m.taken = m.submitted
  inFlight : m.inFlight = []

/-- The request header of a chunk. -/
def Progress.header (p : Progress) : ReqHeader :=
  ⟨if p.call.write then .output else .input, p.currentLba⟩

/-- The header and the length of a chunk are in place. -/
structure Described (m : Machine) (p : Progress) : Prop where
  header : m.header = Progress.header p
  len : m.dataLen = p.bytes

/-- One request is on the ring, and it is the chunk of `p`: not yet taken, in flight, or
completed with a status that is still in the status byte. -/
inductive Outstanding (capacity : Nat) (m : Machine) (p : Progress) : Prop
  | waiting (hdesc : Described m p) (hload : Loaded m p) (lt : m.lastUsedIdx < U16)
      (avail : m.availIdx = (m.lastUsedIdx + 1) % U16) (used : m.usedIdx = m.lastUsedIdx)
      (takenIdx : m.takenIdx = m.lastUsedIdx) (taken : m.taken + 1 = m.submitted)
      (inFlight : m.inFlight = [])
  | taken (hload : Loaded m p) (lt : m.lastUsedIdx < U16)
      (avail : m.availIdx = (m.lastUsedIdx + 1) % U16) (used : m.usedIdx = m.lastUsedIdx)
      (takenIdx : m.takenIdx = m.availIdx) (taken : m.taken = m.submitted) (pos : 0 < m.submitted)
      (inFlight : m.inFlight = [⟨m.submitted - 1, Progress.header p, p.bytes⟩])
  | done (lt : m.lastUsedIdx < U16) (avail : m.availIdx = (m.lastUsedIdx + 1) % U16)
      (used : m.usedIdx = m.availIdx) (takenIdx : m.takenIdx = m.availIdx)
      (taken : m.taken = m.submitted) (inFlight : m.inFlight = [])
      (completed : (m.submitted - 1, m.requestStatus) ∈ m.completed)
      (moved : m.requestStatus = VIRTIO_BLK_S_OK → Moved capacity m p)

/-- What holds at each point of the driver while no call has given up. -/
def Live (capacity : Nat) (m : Machine) : Phase → Prop
  | .idle => Quiet m
  | .loop p => Quiet m ∧ Running m p
  | .prepare p => Quiet m ∧ Running m p ∧ p.remaining ≠ 0 ∧ Loaded m p
  | .publish p => Quiet m ∧ Running m p ∧ p.remaining ≠ 0 ∧ Loaded m p ∧ Described m p
  | .polling p _ => Outstanding capacity m p ∧ Running m p ∧ p.remaining ≠ 0
  | .consume p => Outstanding capacity m p ∧ Running m p ∧ p.remaining ≠ 0 ∧
      m.usedIdx ≠ m.lastUsedIdx
  | .copyOut p => Quiet m ∧ Running m p ∧ p.remaining ≠ 0 ∧ Moved capacity m p

/-- A call has given up, and nothing more is published. -/
def Stale (m : Machine) : Prop :=
  m.availIdx ≠ m.lastUsedIdx ∧
    (m.phase = .idle ∨ (∃ p, m.phase = .loop p ∧ p.remaining ≠ 0) ∨ ∃ p, m.phase = .prepare p)

/-- The invariant of the runs in which no request starts behind one that was given up. -/
structure Inv (capacity : Nat) (m : Machine) : Prop where
  matched : Matched m
  phase : Live capacity m m.phase ∨ Stale m

/-! ### Positions -/

/-- The sizes of a chunk. -/
theorem Running.sizes {m : Machine} {p : Progress} (h : Running m p) :
    Progress.base p = p.call.lba * VIRTIO_BLK_SECTOR_SIZE + p.offset ∧
      p.chunk ≤ p.remaining ∧ p.offset + p.bytes ≤ p.call.count * VIRTIO_BLK_SECTOR_SIZE := by
  have hlba := h.lba
  have hle := h.le
  have hchunk : p.chunk ≤ p.remaining := Nat.min_le_left _ _
  unfold Progress.base Progress.offset Progress.bytes VIRTIO_BLK_SECTOR_SIZE
  omega

theorem Running.length_chunkBytes {m : Machine} {p : Progress} (h : Running m p)
    (hw : p.call.write = true) : p.chunkBytes.length = p.bytes := by
  obtain ⟨-, -, hsize⟩ := h.sizes
  have hlen := h.ok.buffer hw
  unfold Progress.chunkBytes
  rw [List.length_take, List.length_drop, hlen]
  omega

/-! ### The device -/

/-- A completion touches the bounce buffer of a read or the sectors of a write, and nothing
else of the data. -/
theorem completion_data (m : Machine) (r : Taken) (status : UInt8) (garbage : List UInt8) :
    ∃ disk bounce,
      (if status = VIRTIO_BLK_S_OK then m.moveData r else m.spoilData r garbage) =
        { m with disk := disk, bounce := bounce } ∧
      (r.header.type = .input → disk = m.disk ∧
        (status = VIRTIO_BLK_S_OK →
          bounce = writeBytes m.bounce 0 (readBytes m.disk r.base r.len))) ∧
      (r.header.type = .output → ∃ l : List UInt8, l.length ≤ r.len ∧
        disk = writeBytes m.disk r.base l ∧
        (status = VIRTIO_BLK_S_OK → l = readBytes m.bounce 0 r.len)) := by
  by_cases hst : status = VIRTIO_BLK_S_OK
  · rw [if_pos hst]
    unfold Machine.moveData
    cases htype : r.header.type with
    | input => exact ⟨_, _, rfl, fun _ => ⟨rfl, fun _ => rfl⟩, fun h => by simp at h⟩
    | output =>
      exact ⟨_, _, rfl, fun h => by simp at h, fun _ => ⟨_, by simp, rfl, fun _ => rfl⟩⟩
  · rw [if_neg hst]
    unfold Machine.spoilData
    cases htype : r.header.type with
    | input => exact ⟨_, _, rfl, fun _ => ⟨rfl, fun h => absurd h hst⟩, fun h => by simp at h⟩
    | output =>
      exact ⟨_, _, rfl, fun h => by simp at h,
        fun _ => ⟨_, by simp, rfl, fun h => absurd h hst⟩⟩

/-- The completion of the request of a chunk keeps what was done before, and when it is OK the
chunk has been moved. -/
theorem complete_running {capacity : Nat} {m : Machine} {p : Progress} (hrun : Running m p)
    (hload : Loaded m p) {serial : Nat} {status : UInt8} {garbage : List UInt8}
    (hin : status = VIRTIO_BLK_S_OK →
      Progress.base p + p.bytes ≤ capacity * VIRTIO_BLK_SECTOR_SIZE) :
    Running (m.complete ⟨serial, Progress.header p, p.bytes⟩ status garbage) p ∧
      (status = VIRTIO_BLK_S_OK →
        Moved capacity (m.complete ⟨serial, Progress.header p, p.bytes⟩ status garbage) p) := by
  obtain ⟨disk, bounce, hdata, hinput, houtput⟩ :=
    completion_data m ⟨serial, Progress.header p, p.bytes⟩ status garbage
  obtain ⟨hbase, -, -⟩ := hrun.sizes
  unfold Machine.complete
  rw [hdata]
  by_cases hw : p.call.write = true
  · -- A write changes the sectors of its own chunk.
    obtain ⟨l, hlen, rfl, hl⟩ := houtput (by simp [Progress.header, hw])
    have hlen' : l.length ≤ p.bytes := hlen
    have hprefix : readBytes (writeBytes m.disk (Progress.base p) l)
        (p.call.lba * VIRTIO_BLK_SECTOR_SIZE) p.offset =
        readBytes m.disk (p.call.lba * VIRTIO_BLK_SECTOR_SIZE) p.offset :=
      readBytes_writeBytes_of_disjoint _ (Or.inl (by omega))
    refine ⟨⟨hrun.ok, hrun.le, hrun.lba, fun hw' => hprefix.trans (hrun.written hw'),
      fun hr => absurd (hw.symm.trans hr) (by simp)⟩, fun hst => ⟨hin hst, ?_⟩⟩
    rw [if_pos hw]
    have hl' : l = p.chunkBytes := (hl hst).trans (hload hw)
    have hread := readBytes_writeBytes m.disk (Progress.base p) l
    rw [hl', hrun.length_chunkBytes hw] at hread
    rw [hl']
    exact hread
  · -- A read leaves the disk as it is.
    have hw' : p.call.write = false := by simpa using hw
    obtain ⟨rfl, hbounce⟩ := hinput (by simp [Progress.header, hw])
    refine ⟨⟨hrun.ok, hrun.le, hrun.lba, hrun.written, hrun.received⟩,
      fun hst => ⟨hin hst, ?_⟩⟩
    rw [if_neg hw]
    show readBytes bounce 0 p.bytes = _
    rw [hbounce hst]
    have hread := readBytes_writeBytes m.bounce 0 (readBytes m.disk (Progress.base p) p.bytes)
    rw [length_readBytes] at hread
    exact hread

/-- The device takes the request of a chunk. -/
theorem Outstanding.take {capacity : Nat} {m : Machine} {p : Progress}
    (h : Outstanding capacity m p) (hen : m.takenIdx ≠ m.availIdx) :
    Outstanding capacity m.take p := by
  cases h with
  | waiting hdesc hload lt avail used takenIdx taken inFlight =>
    refine .taken hload lt avail used ?_ taken ?_ ?_
    · show (m.takenIdx + 1) % U16 = m.availIdx
      rw [takenIdx, avail]
    · show 0 < m.submitted
      omega
    · show m.inFlight ++ [⟨m.taken, m.header, m.dataLen⟩] = _
      rw [inFlight, hdesc.header, hdesc.len, show m.taken = m.submitted - 1 by omega]
      rfl
  | taken hload lt avail used takenIdx taken pos inFlight => exact absurd takenIdx hen
  | done lt avail used takenIdx taken inFlight completed moved => exact absurd takenIdx hen

/-- The device completes the request of a chunk. -/
theorem Outstanding.complete {capacity : Nat} {m : Machine} {p : Progress}
    (h : Outstanding capacity m p) (hrun : Running m p) {r : Taken} {status : UInt8}
    (garbage : List UInt8) (hmem : r ∈ m.inFlight)
    (hin : status = VIRTIO_BLK_S_OK → r.base + r.len ≤ capacity * VIRTIO_BLK_SECTOR_SIZE) :
    Outstanding capacity (m.complete r status garbage) p ∧
      Running (m.complete r status garbage) p := by
  cases h with
  | waiting hdesc hload lt avail used takenIdx taken inFlight =>
    rw [inFlight] at hmem
    exact absurd hmem List.not_mem_nil
  | done lt avail used takenIdx taken inFlight completed moved =>
    rw [inFlight] at hmem
    exact absurd hmem List.not_mem_nil
  | taken hload lt avail used takenIdx taken pos inFlight =>
    have hr := hmem
    rw [inFlight, List.mem_singleton] at hr
    subst hr
    obtain ⟨hrun', hmoved⟩ := @complete_running capacity m p hrun hload (m.submitted - 1) status
      garbage hin
    refine ⟨?_, hrun'⟩
    obtain ⟨disk, bounce, hdata, -, -⟩ :=
      completion_data m ⟨m.submitted - 1, Progress.header p, p.bytes⟩ status garbage
    unfold Machine.complete at hmoved ⊢
    rw [hdata] at hmoved ⊢
    refine .done lt avail ?_ takenIdx taken ?_ ?_ hmoved
    · show (m.usedIdx + 1) % U16 = m.availIdx
      rw [used, avail]
    · show m.inFlight.erase _ = []
      rw [inFlight, List.erase_cons_head]
    · show (m.submitted - 1, status) ∈ m.completed ++ [(m.submitted - 1, status)]
      simp

/-- A completion adds to the completed requests and leaves the results of the calls alone. -/
theorem Matched.complete {m : Machine} (h : Matched m) (r : Taken) (status : UInt8)
    (garbage : List UInt8) : Matched (m.complete r status garbage) := by
  obtain ⟨disk, bounce, hdata, -, -⟩ := completion_data m r status garbage
  unfold Machine.complete
  rw [hdata]
  exact ⟨fun n hn => List.mem_append_left _ (h.returned n hn), h.finished⟩

theorem complete_phase (m : Machine) (r : Taken) (status : UInt8) (garbage : List UInt8) :
    (m.complete r status garbage).phase = m.phase ∧
      (m.complete r status garbage).availIdx = m.availIdx ∧
      (m.complete r status garbage).lastUsedIdx = m.lastUsedIdx := by
  obtain ⟨disk, bounce, hdata, -, -⟩ := completion_data m r status garbage
  unfold Machine.complete
  rw [hdata]
  exact ⟨rfl, rfl, rfl⟩

/-- A device step keeps the invariant. -/
theorem Inv.device {capacity : Nat} {m : Machine} (h : Inv capacity m) {l : Label}
    (hen : m.Enabled capacity l) (hl : l = .take ∨ ∃ r st g, l = .complete r st g) :
    Inv capacity (m.next l) := by
  obtain rfl | ⟨r, status, garbage, rfl⟩ := hl
  · refine ⟨⟨h.matched.returned, h.matched.finished⟩, ?_⟩
    have htake : m.takenIdx ≠ m.availIdx := hen
    rcases h.phase with hlive | hstale
    · left
      show Live capacity m.take m.phase
      -- With nothing on the ring there is nothing to take.
      cases hphase : m.phase with
      | idle =>
        rw [hphase] at hlive
        exact absurd (Quiet.takenIdx hlive) htake
      | loop p =>
        rw [hphase] at hlive
        exact absurd hlive.1.takenIdx htake
      | prepare p =>
        rw [hphase] at hlive
        exact absurd hlive.1.takenIdx htake
      | publish p =>
        rw [hphase] at hlive
        exact absurd hlive.1.takenIdx htake
      | polling p spin =>
        rw [hphase] at hlive
        obtain ⟨hout, hrun, hrem⟩ := hlive
        exact ⟨hout.take htake, ⟨hrun.ok, hrun.le, hrun.lba, hrun.written, hrun.received⟩, hrem⟩
      | consume p =>
        rw [hphase] at hlive
        obtain ⟨hout, hrun, hrem, hused⟩ := hlive
        exact ⟨hout.take htake, ⟨hrun.ok, hrun.le, hrun.lba, hrun.written, hrun.received⟩, hrem,
          hused⟩
      | copyOut p =>
        rw [hphase] at hlive
        exact absurd hlive.1.takenIdx htake
    · exact Or.inr hstale
  · refine ⟨h.matched.complete r status garbage, ?_⟩
    obtain ⟨hmem, hin⟩ : r ∈ m.inFlight ∧ _ := hen
    obtain ⟨hph, havail, hlast⟩ := complete_phase m r status garbage
    rcases h.phase with hlive | hstale
    · left
      show Live capacity (m.complete r status garbage) (m.complete r status garbage).phase
      rw [hph]
      have hnone : ¬ Quiet m := fun hq => by
        rw [hq.inFlight] at hmem
        exact absurd hmem List.not_mem_nil
      cases hphase : m.phase with
      | idle =>
        rw [hphase] at hlive
        exact absurd hlive hnone
      | loop p =>
        rw [hphase] at hlive
        exact absurd hlive.1 hnone
      | prepare p =>
        rw [hphase] at hlive
        exact absurd hlive.1 hnone
      | publish p =>
        rw [hphase] at hlive
        exact absurd hlive.1 hnone
      | polling p spin =>
        rw [hphase] at hlive
        obtain ⟨hout, hrun, hrem⟩ := hlive
        obtain ⟨hout', hrun'⟩ := hout.complete hrun garbage hmem hin
        exact ⟨hout', hrun', hrem⟩
      | consume p =>
        rw [hphase] at hlive
        obtain ⟨hout, hrun, hrem, hused⟩ := hlive
        obtain ⟨hout', hrun'⟩ := hout.complete hrun garbage hmem hin
        refine ⟨hout', hrun', hrem, ?_⟩
        -- The used index has changed already, so the request is not in flight any more.
        cases hout with
        | waiting _ _ _ _ used => exact absurd used hused
        | taken _ _ _ used => exact absurd used hused
        | done _ _ _ _ _ inFlight =>
          rw [inFlight] at hmem
          exact absurd hmem List.not_mem_nil
      | copyOut p =>
        rw [hphase] at hlive
        exact absurd hlive.1 hnone
    · right
      obtain ⟨hne, hphase⟩ := hstale
      unfold Stale
      show (m.complete r status garbage).availIdx ≠ (m.complete r status garbage).lastUsedIdx ∧ _
      rw [havail, hlast]
      refine ⟨hne, ?_⟩
      show (m.complete r status garbage).phase = _ ∨ _
      simp only [Machine.next, hph]
      exact hphase

/-! ### The driver -/

/-- The transfer returns with a result that is justified. -/
theorem Matched.finish {m : Machine} (h : Matched m) (p : Progress) {result : Bool}
    (hres : result = true → Finished.Delivered ⟨p.call, result, p.received, m.disk⟩) :
    Matched (m.finish p result) := by
  refine ⟨h.returned, fun f hf hr => ?_⟩
  rcases List.mem_append.mp hf with hf | hf
  · exact h.finished f hf hr
  · rw [List.mem_singleton.mp hf] at hr ⊢
    exact hres hr

/-- A call starts a transfer. -/
theorem Inv.call {capacity : Nat} {m : Machine} (h : Inv capacity m) {t : Transfer}
    (hidle : m.phase = .idle) (hok : t.Ok) : Inv capacity (m.transfer t) := by
  unfold Machine.transfer
  split
  · -- A count of 0 is refused.
    refine ⟨h.matched.finish _ fun hr => absurd hr (by simp), ?_⟩
    rcases h.phase with hlive | ⟨hne, -⟩
    · rw [hidle] at hlive
      exact Or.inl ⟨hlive.lt, hlive.used, hlive.last, hlive.takenIdx, hlive.taken, hlive.inFlight⟩
    · exact Or.inr ⟨hne, Or.inl rfl⟩
  · rename_i hcount
    refine ⟨⟨h.matched.returned, h.matched.finished⟩, ?_⟩
    rcases h.phase with hlive | ⟨hne, -⟩
    · rw [hidle] at hlive
      refine Or.inl ⟨⟨hlive.lt, hlive.used, hlive.last, hlive.takenIdx, hlive.taken,
        hlive.inFlight⟩, hok, Nat.le_refl _, ?_, fun _ => ?_, fun _ => ?_⟩
      · simp
      · simp [Progress.offset, readBytes]
      · simp [Progress.offset, readBytes]
    · exact Or.inr ⟨hne, Or.inr (Or.inl ⟨_, rfl, hcount⟩)⟩

/-- A finished transfer has delivered. -/
theorem Running.delivered {m : Machine} {p : Progress} (h : Running m p) (hrem : p.remaining = 0)
    (result : Bool) : Finished.Delivered ⟨p.call, result, p.received, m.disk⟩ := by
  have hoffset : p.offset = p.call.count * VIRTIO_BLK_SECTOR_SIZE := by
    rw [Progress.offset, hrem, Nat.sub_zero]
  unfold Finished.Delivered
  dsimp only
  split
  · rename_i hw
    have hwritten := h.written hw
    rw [hoffset, List.take_of_length_le (by rw [h.ok.buffer hw])] at hwritten
    exact hwritten
  · rename_i hw
    rw [h.received (by simpa using hw), hoffset]

/-- The next chunk, after the device has moved this one. -/
theorem Running.advance {capacity : Nat} (hcap : capacity < U64) {m : Machine} {p : Progress}
    (h : Running m p) (hmoved : Moved capacity m p) :
    Running m ⟨p.call, add64 p.currentLba p.chunk, p.remaining - p.chunk,
      if p.call.write then p.received else p.received ++ readBytes m.bounce 0 p.bytes⟩ := by
  obtain ⟨hbase, hchunk, -⟩ := h.sizes
  have hle := h.le
  have hlba := h.lba
  have hinside := hmoved.inside
  have hnowrap : add64 p.currentLba p.chunk = p.currentLba + p.chunk := by
    refine add64_eq ?_
    unfold Progress.base Progress.bytes VIRTIO_BLK_SECTOR_SIZE at hinside
    omega
  -- What is done now is what was done before and this chunk.
  have hoffset : (p.call.count - (p.remaining - p.chunk)) * VIRTIO_BLK_SECTOR_SIZE =
      p.offset + p.bytes := by
    unfold Progress.offset Progress.bytes
    rw [← Nat.add_mul]
    congr 1
    omega
  refine ⟨h.ok, ?_, ?_, fun hw => ?_, fun hw => ?_⟩
  · show p.remaining - p.chunk ≤ p.call.count
    omega
  · show add64 p.currentLba p.chunk = p.call.lba + (p.call.count - (p.remaining - p.chunk))
    rw [hnowrap]
    omega
  · show readBytes m.disk _ ((p.call.count - (p.remaining - p.chunk)) * VIRTIO_BLK_SECTOR_SIZE) =
      p.call.buffer.take ((p.call.count - (p.remaining - p.chunk)) * VIRTIO_BLK_SECTOR_SIZE)
    have hdata := hmoved.data
    rw [if_pos (show p.call.write = true from hw), hbase] at hdata
    rw [hoffset, readBytes_add, h.written hw, hdata, List.take_add]
    rfl
  · show (if p.call.write then p.received else p.received ++ readBytes m.bounce 0 p.bytes) =
      readBytes m.disk _ ((p.call.count - (p.remaining - p.chunk)) * VIRTIO_BLK_SECTOR_SIZE)
    have hw' : ¬ p.call.write = true := by
      rw [Bool.not_eq_true]
      exact hw
    have hdata := hmoved.data
    rw [if_neg hw', hbase] at hdata
    rw [if_neg hw', hoffset, readBytes_add, hdata, h.received hw]

/-- The index after the last used one is another one. -/
theorem succ_mod_ne (a : Nat) : (a + 1) % U16 ≠ a := by
  unfold U16 at *
  omega

/-- A request on the ring keeps the two indices apart. -/
theorem Outstanding.avail_ne {capacity : Nat} {m : Machine} {p : Progress}
    (h : Outstanding capacity m p) : m.availIdx ≠ m.lastUsedIdx := by
  cases h with
  | waiting _ _ lt avail => exact avail ▸ succ_mod_ne _
  | taken _ lt avail => exact avail ▸ succ_mod_ne _
  | done lt avail => exact avail ▸ succ_mod_ne _

/-- `submit_request` takes a completion off the used ring: it is the one of its own request. -/
theorem Inv.consume {capacity : Nat} {m : Machine} {p : Progress} (hmatched : Matched m)
    (hphase : m.phase = .consume p) (hout : Outstanding capacity m p) (hrun : Running m p)
    (hrem : p.remaining ≠ 0) (hused : m.usedIdx ≠ m.lastUsedIdx) :
    Inv capacity m.driverStep := by
  cases hout with
  | waiting _ _ _ _ used => exact absurd used hused
  | taken _ _ _ used => exact absurd used hused
  | done lt avail used takenIdx taken inFlight completed moved =>
    have havailLt : m.availIdx < U16 := avail ▸ Nat.mod_lt _ (by decide)
    unfold Machine.driverStep
    simp only [hphase]
    by_cases hres : (m.usedRing (m.lastUsedIdx % m.queueSize) == 0 &&
        m.requestStatus == VIRTIO_BLK_S_OK) = true
    · have hst : m.requestStatus = VIRTIO_BLK_S_OK := by
        simp only [Bool.and_eq_true, beq_iff_eq] at hres
        exact hres.2
      have hmoved := moved hst
      rw [if_pos hres]
      refine ⟨⟨fun n hn => ?_, hmatched.finished⟩, Or.inl ⟨⟨havailLt, used, avail.symm, takenIdx,
        taken, inFlight⟩, ⟨hrun.ok, hrun.le, hrun.lba, hrun.written, hrun.received⟩, hrem,
        hmoved.inside, hmoved.data⟩⟩
      have hn' : (n, true) ∈ m.returned ++ [(m.submitted - 1,
        m.usedRing (m.lastUsedIdx % m.queueSize) == 0 && m.requestStatus == VIRTIO_BLK_S_OK)] := hn
      rcases List.mem_append.mp hn' with hn' | hn'
      · exact hmatched.returned n hn'
      · rw [List.mem_singleton, Prod.mk.injEq] at hn'
        rw [hn'.1]
        exact hst ▸ completed
    · rw [if_neg hres]
      have hreturned : Matched (({ m with
          lastUsedIdx := (m.lastUsedIdx + 1) % U16 } : Machine).submitReturns
          (m.usedRing (m.lastUsedIdx % m.queueSize) == 0 &&
            m.requestStatus == VIRTIO_BLK_S_OK)) := by
        refine ⟨fun n hn => ?_, hmatched.finished⟩
        rcases List.mem_append.mp hn with hn | hn
        · exact hmatched.returned n hn
        · rw [List.mem_singleton, Prod.mk.injEq] at hn
          exact absurd hn.2.symm hres
      exact ⟨hreturned.finish p fun h => absurd h (by simp),
        Or.inl ⟨havailLt, used, avail.symm, takenIdx, taken, inFlight⟩⟩

/-- A driver step keeps the invariant, unless it starts a request behind one that was given
up. -/
theorem Inv.driver {capacity : Nat} (hcap : capacity < U64) {m : Machine} (h : Inv capacity m)
    (hok : NoneGivenUp m .driver) : Inv capacity m.driverStep := by
  rcases h.phase with hlive | ⟨hne, hstale⟩
  · cases hphase : m.phase with
    | idle =>
      have hsame : m.driverStep = m := by
        unfold Machine.driverStep
        rw [hphase]
      rw [hsame]
      exact h
    | loop p =>
      rw [hphase] at hlive
      obtain ⟨hq, hrun⟩ := hlive
      have hquiet : ∀ b ph f, Quiet { m with bounce := b, phase := ph, finished := f } :=
        fun _ _ _ => ⟨hq.lt, hq.used, hq.last, hq.takenIdx, hq.taken, hq.inFlight⟩
      unfold Machine.driverStep
      simp only [hphase]
      split
      · rename_i hrem
        exact ⟨h.matched.finish p fun _ => hrun.delivered hrem true, Or.inl (hquiet _ _ _)⟩
      · rename_i hrem
        split
        · rename_i hw
          have hload : readBytes (writeBytes m.bounce 0 p.chunkBytes) 0 p.bytes = p.chunkBytes := by
            have hread := readBytes_writeBytes m.bounce 0 p.chunkBytes
            rwa [hrun.length_chunkBytes hw] at hread
          exact ⟨⟨h.matched.returned, h.matched.finished⟩, Or.inl ⟨hquiet _ _ _,
            ⟨hrun.ok, hrun.le, hrun.lba, hrun.written, hrun.received⟩, hrem, fun _ => hload⟩⟩
        · rename_i hr
          exact ⟨⟨h.matched.returned, h.matched.finished⟩, Or.inl ⟨hquiet _ _ _,
            ⟨hrun.ok, hrun.le, hrun.lba, hrun.written, hrun.received⟩, hrem,
            fun hw => absurd hw hr⟩⟩
    | prepare p =>
      rw [hphase] at hlive
      obtain ⟨hq, hrun, hrem, hload⟩ := hlive
      unfold Machine.driverStep
      simp only [hphase]
      exact ⟨⟨h.matched.returned, h.matched.finished⟩, Or.inl
        ⟨⟨hq.lt, hq.used, hq.last, hq.takenIdx, hq.taken, hq.inFlight⟩,
          ⟨hrun.ok, hrun.le, hrun.lba, hrun.written, hrun.received⟩, hrem, hload, rfl, rfl⟩⟩
    | publish p =>
      rw [hphase] at hlive
      obtain ⟨hq, hrun, hrem, hload, hdesc⟩ := hlive
      unfold Machine.driverStep
      simp only [hphase]
      refine ⟨⟨h.matched.returned, h.matched.finished⟩, Or.inl ⟨.waiting ⟨hdesc.header, hdesc.len⟩
        hload (hq.last ▸ hq.lt) ?_ (hq.used.trans hq.last.symm) (hq.takenIdx.trans hq.last.symm)
        ?_ hq.inFlight, ⟨hrun.ok, hrun.le, hrun.lba, hrun.written, hrun.received⟩, hrem⟩⟩
      · show (m.availIdx + 1) % U16 = (m.lastUsedIdx + 1) % U16
        rw [hq.last]
      · show m.taken + 1 = m.submitted + 1
        rw [hq.taken]
    | polling p spin =>
      rw [hphase] at hlive
      obtain ⟨hout, hrun, hrem⟩ := hlive
      have hrun' : ∀ ph, Running { m with phase := ph } p :=
        fun _ => ⟨hrun.ok, hrun.le, hrun.lba, hrun.written, hrun.received⟩
      have hout' : ∀ ph, Outstanding capacity { m with phase := ph } p := by
        intro ph
        cases hout with
        | waiting hdesc hload lt avail used takenIdx taken inFlight =>
          exact .waiting ⟨hdesc.header, hdesc.len⟩ hload lt avail used takenIdx taken inFlight
        | taken hload lt avail used takenIdx taken pos inFlight =>
          exact .taken hload lt avail used takenIdx taken pos inFlight
        | done lt avail used takenIdx taken inFlight completed moved =>
          exact .done lt avail used takenIdx taken inFlight completed
            fun hst => ⟨(moved hst).inside, (moved hst).data⟩
      unfold Machine.driverStep
      simp only [hphase]
      split
      · -- The call gives up, and its request stays on the ring.
        have hreturned : Matched (m.submitReturns false) := by
          refine ⟨fun n hn => ?_, h.matched.finished⟩
          rcases List.mem_append.mp hn with hn | hn
          · exact h.matched.returned n hn
          · rw [List.mem_singleton, Prod.mk.injEq] at hn
            exact absurd hn.2 (by simp)
        exact ⟨hreturned.finish p fun hr => absurd hr (by simp),
          Or.inr ⟨hout.avail_ne, Or.inl rfl⟩⟩
      · split
        · rename_i hused
          exact ⟨⟨h.matched.returned, h.matched.finished⟩,
            Or.inl ⟨hout' _, hrun' _, hrem, hused⟩⟩
        · exact ⟨⟨h.matched.returned, h.matched.finished⟩, Or.inl ⟨hout' _, hrun' _, hrem⟩⟩
    | consume p =>
      rw [hphase] at hlive
      obtain ⟨hout, hrun, hrem, hused⟩ := hlive
      exact Inv.consume h.matched hphase hout hrun hrem hused
    | copyOut p =>
      rw [hphase] at hlive
      obtain ⟨hq, hrun, hrem, hmoved⟩ := hlive
      have hnext := hrun.advance hcap hmoved
      unfold Machine.driverStep
      simp only [hphase]
      exact ⟨⟨h.matched.returned, h.matched.finished⟩, Or.inl
        ⟨⟨hq.lt, hq.used, hq.last, hq.takenIdx, hq.taken, hq.inFlight⟩,
          hnext.ok, hnext.le, hnext.lba, hnext.written, hnext.received⟩⟩
  · rcases hstale with hphase | ⟨p, hphase, hrem⟩ | ⟨p, hphase⟩
    · have hsame : m.driverStep = m := by
        unfold Machine.driverStep
        rw [hphase]
      rw [hsame]
      exact h
    · unfold Machine.driverStep
      simp only [hphase, if_neg hrem]
      split
      · exact ⟨⟨h.matched.returned, h.matched.finished⟩, Or.inr ⟨hne, Or.inr (Or.inr ⟨p, rfl⟩)⟩⟩
      · exact ⟨⟨h.matched.returned, h.matched.finished⟩, Or.inr ⟨hne, Or.inr (Or.inr ⟨p, rfl⟩)⟩⟩
    · exact absurd (hok (by rw [atSubmit, hphase])) hne

/-- In every run of the driver and the device in which no request starts behind one that was
given up, every result true belongs to a request that the device has completed with status OK,
and every transfer that returned true delivered exactly the bytes asked for. -/
theorem matched_of_none_given_up (queueSize capacity : Nat) (hcap : capacity < U64) (m : Machine)
    (hm : ((virtioSystem queueSize capacity).restrict NoneGivenUp).Reachable m) : Matched m := by
  have hinv : Inv capacity m := by
    refine hm.invariant (fun s hs => ?_) (fun s l t _ hs hstep => ?_)
    · obtain ⟨disk, rfl⟩ := hs
      exact ⟨⟨fun n hn => absurd hn List.not_mem_nil, fun f hf => absurd hf List.not_mem_nil⟩,
        Or.inl ⟨show 0 < U16 by decide, rfl, rfl, rfl, rfl, rfl⟩⟩
    · obtain ⟨hok, hen, rfl⟩ := hstep
      cases l with
      | call t => exact hs.call hen.1 hen.2
      | driver => exact hs.driver hcap hok
      | take => exact hs.device hen (Or.inl rfl)
      | complete r status garbage => exact hs.device hen (Or.inr ⟨r, status, garbage, rfl⟩)
  exact hinv.matched

/-- A list of enabled labels. -/
theorem reachable_labels {queueSize capacity : Nat} {m : Machine}
    (hm : (virtioSystem queueSize capacity).Reachable m) (ls : List Label)
    (hok : TransitionSystem.OkAlong Machine.next (Machine.Enabled capacity) m ls) :
    (virtioSystem queueSize capacity).Reachable (ls.foldl Machine.next m) :=
  TransitionSystem.reachable_of_okAlong (fun _ _ h => And.intro h rfl) hm hok

/-- A list of enabled labels that start no request behind one that was given up. -/
theorem reachable_labels_none_given_up {queueSize capacity : Nat} {m : Machine}
    (hm : ((virtioSystem queueSize capacity).restrict NoneGivenUp).Reachable m) (ls : List Label)
    (hok : TransitionSystem.OkAlong Machine.next
      (fun m l => NoneGivenUp m l ∧ m.Enabled capacity l) m ls) :
    ((virtioSystem queueSize capacity).restrict NoneGivenUp).Reachable (ls.foldl Machine.next m) :=
  TransitionSystem.reachable_of_okAlong (fun _ _ h => And.intro h.1 (And.intro h.2 rfl)) hm hok

/-- A disk of ones in its first sector and twos behind it. -/
def twoSectors : Nat → UInt8 := fun i => if i < 512 then 1 else 2

/-- A read of sector 1 that the device completes in time. -/
theorem matched_of_none_given_up_read :
    ∃ m, ((virtioSystem 4 8).restrict NoneGivenUp).Reachable m ∧ Matched m ∧
      (0, true) ∈ m.returned ∧ (0, VIRTIO_BLK_S_OK) ∈ m.completed := by
  have hreach := reachable_labels_none_given_up
    (.init ⟨twoSectors, rfl⟩ : ((virtioSystem 4 8).restrict NoneGivenUp).Reachable _)
    [.call ⟨false, 1, 1, []⟩, .driver, .driver, .driver, .take,
      .complete ⟨0, ⟨.input, 1⟩, 512⟩ 0 [], .driver, .driver, .driver, .driver]
    (by with_unfolding_all decide)
  have hmatched := matched_of_none_given_up 4 8 (by with_unfolding_all decide) _ hreach
  exact ⟨_, hreach, hmatched, by decide, hmatched.returned 0 (by decide)⟩

/-- Polling without an answer. -/
theorem reachable_polling {queueSize capacity : Nat} {m : Machine} {p : Progress}
    (hm : (virtioSystem queueSize capacity).Reachable m) (hphase : m.phase = .polling p 0)
    (hused : m.usedIdx = m.lastUsedIdx) :
    ∀ n ≤ VIRTIO_BLK_TIMEOUT_SPINS,
      (virtioSystem queueSize capacity).Reachable { m with phase := .polling p n } := by
  intro n
  induction n with
  | zero =>
    intro _
    have hsame : { m with phase := .polling p 0 } = m := by rw [← hphase]
    rw [hsame]
    exact hm
  | succ n ih =>
    intro hn
    refine .step (l := .driver) (ih (by omega)) ⟨?_, ?_⟩
    · show Phase.polling p n ≠ .idle
      simp
    · show _ = Machine.driverStep { m with phase := .polling p n }
      unfold Machine.driverStep
      simp only [if_neg (show ¬ n ≥ VIRTIO_BLK_TIMEOUT_SPINS by omega), hused, ne_eq,
        not_true_eq_false, if_false]

/-- The machine after the read of sector 0 was taken by the device. -/
def firstRead : Machine :=
  [Label.call ⟨false, 0, 1, []⟩, .driver, .driver, .driver, .take].foldl Machine.next
    (Machine.initial 4 twoSectors)

/-- The read of sector 0 gives up, and its completion comes while the next read, of sector 1,
is polling: that read returns true with the data of sector 0. -/
theorem late_completion_mistaken : ∃ m, (virtioSystem 4 8).Reachable m ∧ ¬ Matched m := by
  have hfirst : (virtioSystem 4 8).Reachable firstRead :=
    reachable_labels (.init ⟨twoSectors, rfl⟩) _ (by with_unfolding_all decide)
  have hpolled := reachable_polling (p := ⟨⟨false, 0, 1, []⟩, 0, 1, []⟩) hfirst (by decide)
    (by decide) VIRTIO_BLK_TIMEOUT_SPINS (Nat.le_refl _)
  have hlast := reachable_labels hpolled
    [.driver, .call ⟨false, 1, 1, []⟩, .driver, .driver, .driver,
      .complete ⟨0, ⟨.input, 0⟩, 512⟩ 0 [], .driver, .driver, .driver, .driver]
    (by with_unfolding_all decide)
  refine ⟨_, hlast, fun hmatched => ?_⟩
  -- The second request returned true, and the device has completed only the first one.
  have hcompleted := hmatched.returned 1 (by decide)
  revert hcompleted
  decide

end VKernel.Proofs.Drivers

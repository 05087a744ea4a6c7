import VKernel.Fs.Appends
import VKernel.Proofs.Fs.Sessions

/-!
# `VKernel.Proofs.Fs.Appends`: what interleaved appends leave in the file

A stream holds the file as it was at its open, with the session's own chunks behind it, and
its close writes all of that. `AppendInv` says so for every slot, for as long as the file was
not replaced since. One lemma for each call shows that it is kept, and `appended_of_run` reads
the content of the file off it.
-/

set_option autoImplicit false

namespace VKernel.Proofs.Fs

open VKernel VKernel.Lib VKernel.Fs

variable {σ δ : Type}

/-- Laid over at the end, data is appended. -/
theorem overlay_length (c data : List UInt8) : overlay c c.length data = c ++ data := by
  simp [overlay, padTo]

/-- A write in append mode appends its data, or leaves the content alone. -/
theorem write_append {s : KernelStream δ} {c : List UInt8} (h : Holds s c)
    (hw : s.writable = true) (happend : s.append = true) {data : List UInt8}
    (hdata : data.length < U64) (heap : Heap) :
    ∃ count ok t, s.write data heap = some ((count, ok), t) ∧ SameMode s t ∧
      Holds t (c ++ (if ok then [data] else []).flatten) ∧
      (if ok then t.dirty = true else t.dirty = s.dirty) := by
  have hpos : s.writePosition = c.length := by
    unfold KernelStream.writePosition
    rw [if_pos happend, h.size]
  have hhole : s.holeCapacity heap = some s.capacity := by
    unfold KernelStream.holeCapacity
    rw [if_neg (by rw [hpos, h.size]; omega)]
  cases hend : s.endCapacity data.length heap with
  | some n =>
    obtain ⟨t, heq, hmode, hholds, hdirty, -⟩ := write_spec h hw hend
    rw [hpos, overlay_length] at hholds
    exact ⟨_, true, t, heq, hmode, by simpa using hholds, hdirty⟩
  | none =>
    obtain ⟨t, heq, hmode, hholds, hdirty⟩ := write_holeOnly h hw hdata hhole hend
    -- The position is the end, so there is no hole to fill.
    have hpad : padTo c s.writePosition = c := by simp [hpos, padTo]
    rw [hpad] at hholds
    exact ⟨_, false, t, heq, hmode, by simpa using hholds, hdirty⟩

/-! ### The invariant -/

/-- The stream of a session on `file`, which has the content `content` now and was replaced
`replaced` times. -/
structure StreamInv (file content : List UInt8) (replaced : Nat) (stream : KernelStream δ)
    (session : Session) : Prop where
  writable : stream.writable = true
  append : stream.append = true
  driver : stream.driver = true
  path : stream.path = file
  clean : stream.dirty = false → session.chunks = []
  openedAt_le : session.openedAt ≤ replaced
  holds : ∃ c, Holds stream c ∧ (session.found = true → session.openedAt = replaced →
    c = content ++ session.chunks.flatten)

/-- Every open stream is one of a session on the file, and the file has the chunks of the
closed sessions. -/
structure AppendInv (file : List UInt8) (files : σ → Option (List UInt8)) (initial : List UInt8)
    (t : StreamTable σ δ) : Prop where
  appended : Appended files initial t
  streams : ∀ content, files t.backend = some content → ∀ i, (t.streams i).inUse = true →
    StreamInv file content t.replaced (t.streams i) (t.session i)

/-- The driver stores what a close hands to it. -/
def WriteKept (driver : FilesystemDriver σ δ) (file : List UInt8) (files : σ → Option (List UInt8))
    (t : StreamTable σ δ) : SessionCall → Prop
  | .close i =>
    Stores driver (fun backend _ => files backend) t.backend file (t.streams i).content
  | _ => True

section Steps

variable {driver : FilesystemDriver σ δ} {file : List UInt8} {files : σ → Option (List UInt8)}
  {initial : List UInt8} {t : StreamTable σ δ}

/-- A call that changes one stream and keeps the backend. -/
theorem AppendInv.update (h : AppendInv file files initial t) {i : Nat}
    {stream : KernelStream δ} {session : Session}
    (hstream : ∀ content, files t.backend = some content →
      StreamInv file content t.replaced stream session) :
    AppendInv file files initial { t with
      streams := Function.update t.streams i stream
      session := Function.update t.session i session } := by
  refine ⟨h.appended, fun content hcontent j hj => ?_⟩
  simp only [Function.update_apply] at hj ⊢
  split
  · exact hstream content hcontent
  · rename_i hne
    rw [if_neg hne] at hj
    exact h.streams content hcontent j hj

/-- The mode of a call that keeps the content. -/
theorem StreamInv.same {content : List UInt8} {replaced : Nat} {s s' : KernelStream δ}
    {session : Session} (h : StreamInv file content replaced s session) (hmode : SameMode s s')
    (hdirty : s'.dirty = s.dirty) (hholds : ∀ c, Holds s c → Holds s' c) :
    StreamInv file content replaced s' session := by
  obtain ⟨c, hc, hlast⟩ := h.holds
  exact ⟨hmode.writable.trans h.writable, hmode.append.trans h.append,
    hmode.driver.trans h.driver, hmode.path.trans h.path, fun hd => h.clean (hdirty ▸ hd),
    h.openedAt_le, c, hholds c hc, hlast⟩

/-- Updating a slot with the history it has. -/
theorem update_session_self (t : StreamTable σ δ) (i : Nat) :
    Function.update t.session i (t.session i) = t.session := Function.update_eq_self i t.session

theorem AppendInv.updateStream (h : AppendInv file files initial t) {i : Nat}
    (hi : t.IsOpen i) {stream : KernelStream δ} (hmode : SameMode (t.streams i) stream)
    (hdirty : stream.dirty = (t.streams i).dirty)
    (hholds : ∀ c, Holds (t.streams i) c → Holds stream c) :
    AppendInv file files initial (t.setStream i stream) := by
  have hupdate := @AppendInv.update _ _ _ _ _ _ h i stream (t.session i)
    fun content hcontent => (h.streams content hcontent i hi.2).same hmode hdirty hholds
  rwa [update_session_self] at hupdate

/-- A new session. The stream that it opens holds the file, or nothing when the heap did not
grant the buffer. -/
theorem AppendInv.fileOpen
    (hread : ∀ backend content, files backend = some content →
      driver.readFile backend file = some content)
    (h : AppendInv file files initial t) {path : List UInt8} {modeString : List Char}
    (hpath : normalizePath path = file) (hmode : (parseMode modeString).append = true)
    (granted : Bool) :
    AppendInv file files initial (t.fileOpen driver path modeString granted) := by
  unfold StreamTable.fileOpen
  split
  · exact h
  split
  · exact h
  rename_i stream hopen
  have hwritable : (parseMode modeString).writable = true := by
    unfold parseMode at hmode ⊢
    split <;> simp_all
  obtain ⟨hholds, -, -, happend, hw, hdriver, hclean, hstream⟩ := openStream_spec hopen hwritable
  refine h.update fun content hcontent => ?_
  refine ⟨hw, happend.trans hmode, hdriver, hstream.trans hpath, fun _ => rfl, Nat.le_refl _,
    _, hholds, fun hfound _ => ?_⟩
  have hkeeps : (parseMode modeString).truncate = false := by
    unfold parseMode at hmode ⊢
    split <;> simp_all
  -- The file was found, so the heap granted the buffer and the content is the file's.
  cases granted with
  | false => simp [FilesystemDriver.withBuffer] at hfound
  | true =>
    simp [AbstractFile.opened, hkeeps, FilesystemDriver.withBuffer, hpath, hread _ _ hcontent]

/-- A write appends its chunk to the stream and to the history, or neither. -/
theorem AppendInv.fileWrite (h : AppendInv file files initial t) {i : Nat} (hi : t.IsOpen i)
    {data : List UInt8} (hdata : data.length < U64) (heap : Heap) :
    ∃ t', t.fileWrite i data heap = some t' ∧ AppendInv file files initial t' := by
  obtain ⟨merged, -, hcontent⟩ := h.appended
  have hinv := h.streams _ hcontent i hi.2
  obtain ⟨c, hc, hlast⟩ := hinv.holds
  obtain ⟨count, ok, s', heq, hmode, hholds, hdirty⟩ :=
    write_append hc hinv.writable hinv.append hdata heap
  unfold StreamTable.fileWrite
  rw [heq]
  refine ⟨_, rfl, h.update ?_⟩
  intro content hcontent'
  rw [hcontent] at hcontent'
  cases hcontent'
  refine ⟨hmode.writable.trans hinv.writable, hmode.append.trans hinv.append,
    hmode.driver.trans hinv.driver, hmode.path.trans hinv.path, ?_, hinv.openedAt_le, _, hholds, ?_⟩
  · intro hclean
    cases ok with
    | true =>
      rw [if_pos rfl, hclean] at hdirty
      cases hdirty
    | false =>
      rw [if_neg (by simp)] at hdirty
      simpa using hinv.clean (hdirty ▸ hclean)
  · intro hfound hat
    rw [hlast hfound hat]
    simp

/-- A close. A session that has written puts its chunks behind the file, because it holds the
file as it is; one that has not changes nothing. -/
theorem AppendInv.fileClose (h : AppendInv file files initial t) {i : Nat} (hi : t.IsOpen i)
    (hok : UpToDate t (.close i)) (hwrite : WriteKept driver file files t (.close i))
    {t' : StreamTable σ δ} (hclose : t.fileClose driver i = some t') :
    AppendInv file files initial t' := by
  obtain ⟨merged, hmerged, hcontent⟩ := h.appended
  have hinv := h.streams _ hcontent i hi.2
  obtain ⟨c, hc, hlast⟩ := hinv.holds
  have hhanded := handed_eq hc hinv.driver
  -- The slots that are open after the close were open before.
  have hothers : ∀ j, (Function.update t.streams i {} j).inUse = true →
      Function.update t.streams i {} j = t.streams j ∧ (t.streams j).inUse = true := by
    intro j hj
    rw [Function.update_apply] at hj ⊢
    split at hj
    · cases hj
    · rename_i hne
      rw [if_neg hne]
      exact ⟨rfl, hj⟩
  unfold StreamTable.fileClose KernelStream.close at hclose
  cases hdirty : (t.streams i).dirty with
  | false =>
    rw [hdirty, if_neg (by simp)] at hhanded
    simp only [hhanded, hdirty, if_false, Option.some.injEq, Bool.false_eq_true] at hclose
    subst hclose
    refine ⟨⟨merged, ?_, hcontent⟩, fun content hcontent' j hj => ?_⟩
    · show Shuffle (t.closed ++ [(t.session i).chunks]) merged
      have hsnoc := hmerged.snoc (t.session i).chunks
      rw [hinv.clean hdirty, List.append_nil] at hsnoc
      rwa [hinv.clean hdirty]
    · obtain ⟨hsame, hopen⟩ := hothers j hj
      show StreamInv file content t.replaced (Function.update t.streams i {} j) (t.session j)
      rw [hsame]
      exact h.streams content hcontent' j hopen
  | true =>
    obtain ⟨hfound, hat⟩ := hok hdirty
    rw [hdirty, if_pos rfl, hlast hfound hat] at hhanded
    simp only [hhanded, hdirty, if_true, hinv.path] at hclose
    cases hstored : driver.writeFile t.backend file
        (initial ++ merged.flatten ++ (t.session i).chunks.flatten) with
    | mk ok backend =>
      rw [hstored] at hclose
      cases ok with
      | false => simp at hclose
      | true =>
        simp only [Option.some.injEq] at hclose
        subst hclose
        have hstores : Stores driver (fun backend _ => files backend) t.backend file
            (t.streams i).content := hwrite
        rw [content_eq hc, hlast hfound hat] at hstores
        have hnew : files backend = _ := hstores _ hstored
        refine ⟨⟨merged ++ (t.session i).chunks, hmerged.snoc _, ?_⟩, ?_⟩
        · show files backend = _
          rw [hnew, List.flatten_append, List.append_assoc]
        · intro content _ j hj
          obtain ⟨hsame, hopen⟩ := hothers j hj
          have hj := h.streams _ hcontent j hopen
          show StreamInv file content (t.replaced + 1) (Function.update t.streams i {} j)
            (t.session j)
          rw [hsame]
          have hle := hj.openedAt_le
          obtain ⟨c', hc', -⟩ := hj.holds
          -- The other sessions hold a file that is not the present one.
          exact ⟨hj.writable, hj.append, hj.driver, hj.path, hj.clean, by omega, c', hc',
            fun _ hsince => absurd hsince (by omega)⟩

/-- One call. -/
theorem AppendInv.next
    (hread : ∀ backend content, files backend = some content →
      driver.readFile backend file = some content)
    (h : AppendInv file files initial t) {call : SessionCall} (hok : UpToDate t call)
    (hwrite : WriteKept driver file files t call) {t' : StreamTable σ δ}
    (hnext : t.next driver file call = some t') :
    AppendInv file files initial t' := by
  cases call with
  | openAppend path modeString granted =>
    simp only [StreamTable.next, Option.ite_none_right_eq_some, Option.some.injEq] at hnext
    obtain ⟨⟨hpath, hmode⟩, rfl⟩ := hnext
    exact h.fileOpen hread hpath hmode granted
  | read i bufSize =>
    simp only [StreamTable.next, Option.ite_none_right_eq_some, Option.some.injEq] at hnext
    obtain ⟨hi, rfl⟩ := hnext
    obtain ⟨merged, -, hcontent⟩ := h.appended
    obtain ⟨c, hc, -⟩ := (h.streams _ hcontent i hi.2).holds
    obtain ⟨hmode, -, hdirty⟩ := read_keeps driver t.backend hc bufSize
    exact h.updateStream hi hmode hdirty fun c' hc' => (read_keeps driver t.backend hc' bufSize).2.1
  | seek i offset whence =>
    simp only [StreamTable.next, Option.ite_none_right_eq_some, Option.some.injEq] at hnext
    obtain ⟨hi, rfl⟩ := hnext
    obtain ⟨merged, -, hcontent⟩ := h.appended
    obtain ⟨c, hc, -⟩ := (h.streams _ hcontent i hi.2).holds
    obtain ⟨hmode, -, hdirty⟩ := seek_keeps hc offset whence
    exact h.updateStream hi hmode hdirty fun c' hc' => (seek_keeps hc' offset whence).2.1
  | write i data heap =>
    simp only [StreamTable.next, Option.ite_none_right_eq_some] at hnext
    obtain ⟨⟨hi, hdata⟩, hnext⟩ := hnext
    obtain ⟨u, hu, hinv⟩ := h.fileWrite hi hdata heap
    rw [hu] at hnext
    cases hnext
    exact hinv
  | close i =>
    simp only [StreamTable.next, Option.ite_none_right_eq_some] at hnext
    exact h.fileClose hnext.1 hok hwrite hnext.2

end Steps

/-- Over every run of sessions that append to a file, the file has its first content followed
by the chunks of all closed sessions, those of each session in order, as long as every session
that is closed after it has written found the file at its open and no other close has replaced
the file since. `files` is what the backend has stored: `read_file` of the file returns that when
the heap grants the buffer, and the `write_file` of each close has stored what it was given when it
returns `true`. -/
theorem appended_of_run (driver : FilesystemDriver σ δ) (file : List UInt8)
    (files : σ → Option (List UInt8))
    (hread : ∀ backend content, files backend = some content →
      driver.readFile backend file = some content)
    (initial : List UInt8) (t : StreamTable σ δ)
    (hrun : ((appendSystem driver file files initial).restrict fun t call =>
      UpToDate t call ∧ WriteKept driver file files t call).Reachable t) :
    Appended files initial t := by
  have hinv : AppendInv file files initial t := by
    refine hrun.invariant ?_ ?_
    · rintro t ⟨hfile, hstreams, -, hclosed⟩
      refine ⟨⟨[], ?_, by simpa using hfile⟩, fun content _ i hi => ?_⟩
      · rw [hclosed]
        exact .nil
      · rw [hstreams i] at hi
        cases hi
    · rintro t call t' - hinv ⟨⟨hok, hwrite⟩, hnext⟩
      exact hinv.next hread hok hwrite hnext
  exact hinv.appended

/-! ### Two small runs -/

/-- What the memory driver has stored under the name `a`. -/
def storedA (files : List UInt8 → Option (List UInt8)) : Option (List UInt8) := files [97]

/-- The table before the first session, with a file of one byte. -/
def oneByte : StreamTable (List UInt8 → Option (List UInt8)) Unit where
  backend := fun _ => some [1]
  streams := fun _ => {}
  session := fun _ => {}
  replaced := 0
  closed := []

/-- The system of the sessions on that file. -/
abbrev smallSystem : TransitionSystem (StreamTable (List UInt8 → Option (List UInt8)) Unit)
    SessionCall := appendSystem memoryDriver [97] storedA [1]

theorem smallSystem_init : smallSystem.init oneByte := ⟨rfl, fun _ => rfl, rfl, rfl⟩

/-- Two sessions, one after the other. -/
def sessionsInTurn : List SessionCall :=
  [.openAppend [97] ['a'] true, .write 0 [2] plentiful, .close 0,
    .openAppend [97] ['a', '+'] true, .write 0 [3] plentiful, .close 0]

/-- The memory driver stores what it is given. -/
theorem writeKept_memoryDriver (t : StreamTable (List UInt8 → Option (List UInt8)) Unit)
    (call : SessionCall) : WriteKept memoryDriver [97] storedA t call := by
  cases call with
  | close i =>
    rintro _ ⟨⟩
    exact Function.update_self ..
  | openAppend _ _ _ => trivial
  | read _ _ => trivial
  | seek _ _ _ => trivial
  | write _ _ _ => trivial

/-- The file has the chunks of both. -/
theorem appended_of_run_in_turn :
    ∃ t, (smallSystem.restrict UpToDate).Reachable t ∧ Appended storedA [1] t ∧
      t.closed = [[[2]], [[3]]] := by
  have hany : (TransitionSystem.run (TransitionSystem.guarded (StreamTable.next memoryDriver [97])
      UpToDate) oneByte sessionsInTurn).any (fun t => decide (t.closed = [[[2]], [[3]]])) =
        true := by
    with_unfolding_all decide
  obtain ⟨t, hrun, hclosed⟩ := (Option.any_eq_true _ _).mp hany
  have hreach := TransitionSystem.reachable_of_guarded_run
    (.init smallSystem_init : (smallSystem.restrict UpToDate).Reachable _) hrun
  refine ⟨t, hreach, ?_, of_decide_eq_true hclosed⟩
  refine appended_of_run memoryDriver [97] storedA (fun _ _ h => h) [1] t (hreach.restrict_mono ?_)
  exact fun t call hok => ⟨hok, writeKept_memoryDriver t call⟩

/-- Two sessions that overlap. -/
def sessionsOverlapping : List SessionCall :=
  [.openAppend [97] ['a'] true, .openAppend [97] ['a'] true, .write 0 [2] plentiful,
    .write 1 [3] plentiful, .close 0, .close 1]

/-- A session whose open is refused the buffer for the file. -/
def sessionStarved : List SessionCall :=
  [.openAppend [97] ['a'] false, .write 0 [2] plentiful, .close 0]

/-- A file that does not have a byte of a closed session is not the appended file. -/
theorem not_appended {t : StreamTable (List UInt8 → Option (List UInt8)) Unit}
    {initial content chunk : List UInt8} {b : UInt8} {k : Nat}
    (hcontent : storedA t.backend = some content) (hchunk : chunk ∈ t.closed.getD k [])
    (hb : b ∈ chunk) (hmissing : b ∉ content) : ¬ Appended storedA initial t := by
  rintro ⟨merged, hmerged, hfile⟩
  rw [hcontent, Option.some.injEq] at hfile
  apply hmissing
  rw [hfile]
  exact List.mem_append_right _ (List.mem_flatten.mpr ⟨chunk, hmerged.mem hchunk, hb⟩)

/-- Of two sessions that overlap, the one that is closed first loses its chunk. After an open
that could not read the file, the file has lost its first content. -/
theorem append_loses_data :
    (∃ t, smallSystem.Reachable t ∧ t.closed = [[[2]], [[3]]] ∧
        storedA t.backend = some [1, 3] ∧ ¬ Appended storedA [1] t) ∧
      ∃ t, smallSystem.Reachable t ∧ t.closed = [[[2]]] ∧ storedA t.backend = some [2] ∧
        ¬ Appended storedA [1] t := by
  constructor
  · have hany : (TransitionSystem.run (StreamTable.next memoryDriver [97]) oneByte
        sessionsOverlapping).any (fun t => decide (t.closed = [[[2]], [[3]]] ∧
          storedA t.backend = some [1, 3])) = true := by
      with_unfolding_all decide
    obtain ⟨t, hrun, hend⟩ := (Option.any_eq_true _ _).mp hany
    obtain ⟨hclosed, hcontent⟩ := of_decide_eq_true hend
    refine ⟨t, TransitionSystem.reachable_of_run (.init smallSystem_init) hrun, hclosed, hcontent,
      ?_⟩
    refine @not_appended t [1] [1, 3] [2] 2 0 hcontent ?_ (List.mem_singleton_self 2) (by decide)
    rw [hclosed]
    exact List.mem_singleton_self _
  · have hany : (TransitionSystem.run (StreamTable.next memoryDriver [97]) oneByte
        sessionStarved).any (fun t => decide (t.closed = [[[2]]] ∧
          storedA t.backend = some [2])) = true := by
      with_unfolding_all decide
    obtain ⟨t, hrun, hend⟩ := (Option.any_eq_true _ _).mp hany
    obtain ⟨hclosed, hcontent⟩ := of_decide_eq_true hend
    refine ⟨t, TransitionSystem.reachable_of_run (.init smallSystem_init) hrun, hclosed, hcontent,
      ?_⟩
    rintro ⟨merged, -, hfile⟩
    rw [hcontent, Option.some.injEq] at hfile
    cases hfile

end VKernel.Proofs.Fs

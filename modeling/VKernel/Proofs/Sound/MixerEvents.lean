import VKernel.Lib.Ring
import VKernel.Sound.Mixer

/-!
# `VKernel.Proofs.Sound.MixerEvents`: what a mixer log says

A log is read in two ways. `runLive` follows the heap copies: a copy that is freed or read
has to be live at that point. `runQueue` follows the segments of one channel: a segment that
starts has to be the front of the queue of those that were accepted, and only a reset of the
channel drops waiting ones. Both are partial, and a log is good when they are defined on it.

`Does` is what a function on one channel does in both views, relative to the copies it can
reach. It composes (`Does.trans`), so each function of the mixer is a chain of small steps.
-/

set_option autoImplicit false

namespace VKernel.Proofs.Sound

open VKernel.Sound VKernel.Lib

/-! ### Live copies -/

/-- One event seen by the heap: the copies that are live after it, or `none` when it frees
or reads a copy that is not live, or makes one that is. -/
def stepLive (live : List Nat) : MixEvent → Option (List Nat)
  | .copied id => if id ∈ live then none else some (id :: live)
  | .freed id => if id ∈ live then some (live.erase id) else none
  | .read id => if id ∈ live then some live else none
  | _ => some live

/-- A list of events seen by the heap. -/
def runLive : List Nat → List MixEvent → Option (List Nat)
  | live, [] => some live
  | live, e :: es => (stepLive live e).bind fun l => runLive l es

theorem runLive_append (live : List Nat) (es fs : List MixEvent) :
    runLive live (es ++ fs) = (runLive live es).bind fun l => runLive l fs := by
  induction es generalizing live with
  | nil => rfl
  | cons e es ih =>
    show ((stepLive live e).bind fun l => runLive l (es ++ fs)) = _
    cases h : stepLive live e with
    | none => simp [runLive, h]
    | some l => simp [runLive, h, ih]

/-- The order in which the live copies are listed does not matter. -/
theorem stepLive_perm {l l' r : List Nat} {e : MixEvent} (hp : l.Perm l')
    (h : stepLive l e = some r) : ∃ r', stepLive l' e = some r' ∧ r.Perm r' := by
  cases e with
  | copied id =>
    simp only [stepLive] at h ⊢
    split at h
    · exact absurd h (by simp)
    · rename_i hid
      rw [if_neg fun h' => hid (hp.mem_iff.mpr h')]
      exact ⟨_, rfl, Option.some.inj h ▸ hp.cons id⟩
  | freed id =>
    simp only [stepLive] at h ⊢
    split at h
    · rename_i hid
      rw [if_pos (hp.mem_iff.mp hid)]
      exact ⟨_, rfl, Option.some.inj h ▸ hp.erase id⟩
    · exact absurd h (by simp)
  | read id =>
    simp only [stepLive] at h ⊢
    split at h
    · rename_i hid
      rw [if_pos (hp.mem_iff.mp hid)]
      exact ⟨_, rfl, Option.some.inj h ▸ hp⟩
    · exact absurd h (by simp)
  | accepted ch id => exact ⟨l', rfl, Option.some.inj h ▸ hp⟩
  | started ch id => exact ⟨l', rfl, Option.some.inj h ▸ hp⟩
  | cleared ch => exact ⟨l', rfl, Option.some.inj h ▸ hp⟩

theorem runLive_perm {l l' r : List Nat} {es : List MixEvent} (hp : l.Perm l')
    (h : runLive l es = some r) : ∃ r', runLive l' es = some r' ∧ r.Perm r' := by
  induction es generalizing l l' with
  | nil => exact ⟨l', rfl, Option.some.inj h ▸ hp⟩
  | cons e es ih =>
    obtain ⟨m, hm, hrest⟩ := Option.bind_eq_some_iff.mp h
    obtain ⟨m', hm', hpm⟩ := stepLive_perm hp hm
    obtain ⟨r', hr', hpr⟩ := ih hpm hrest
    refine ⟨r', ?_, hpr⟩
    show ((stepLive l' e).bind fun l => runLive l es) = some r'
    rw [hm']
    exact hr'

/-- The balance of a copy: live now or freed, as often as it was live before or made. -/
theorem runLive_count {l r : List Nat} {es : List MixEvent} (h : runLive l es = some r)
    (id : Nat) :
    r.count id + es.count (.freed id) = l.count id + es.count (.copied id) := by
  induction es generalizing l with
  | nil =>
    rw [← Option.some.inj h]
    simp
  | cons e es ih =>
    obtain ⟨m, hm, hrest⟩ := Option.bind_eq_some_iff.mp h
    have hbal := ih hrest
    have hstep : m.count id + (if e = .freed id then 1 else 0) =
        l.count id + (if e = .copied id then 1 else 0) := by
      cases e with
      | copied k =>
        simp only [stepLive] at hm
        split at hm
        · exact absurd hm (by simp)
        · rw [← Option.some.inj hm, List.count_cons]
          by_cases hk : k = id
          · simp [hk]
          · simp [hk]
      | freed k =>
        simp only [stepLive] at hm
        split at hm
        · rename_i hmem
          rw [← Option.some.inj hm]
          by_cases hk : k = id
          · have hpos : 0 < l.count id := List.count_pos_iff.mpr (hk ▸ hmem)
            rw [hk, List.count_erase_self]
            simp
            omega
          · rw [List.count_erase_of_ne fun h => hk h.symm]
            simp [hk]
        · exact absurd hm (by simp)
      | read k =>
        simp only [stepLive] at hm
        split at hm
        · rw [← Option.some.inj hm]
          simp
        · exact absurd hm (by simp)
      | accepted ch k => rw [← Option.some.inj hm]; simp
      | started ch k => rw [← Option.some.inj hm]; simp
      | cleared ch => rw [← Option.some.inj hm]; simp
    rw [List.count_cons, List.count_cons]
    simp only [beq_iff_eq]
    omega

/-- Freeing a list of live copies leaves the others. -/
theorem runLive_free {ids l others : List Nat} (hp : l.Perm (ids ++ others)) :
    ∃ r, runLive l (ids.map .freed) = some r ∧ r.Perm others := by
  induction ids generalizing l with
  | nil => exact ⟨l, rfl, hp⟩
  | cons id ids ih =>
    have hmem : id ∈ l := hp.mem_iff.mpr (by simp)
    have herase : (l.erase id).Perm (ids ++ others) := by
      have h := hp.erase id
      rwa [List.cons_append, List.erase_cons_head] at h
    obtain ⟨r, hr, hpr⟩ := ih herase
    refine ⟨r, ?_, hpr⟩
    show ((stepLive l (.freed id)).bind fun l => runLive l (ids.map .freed)) = some r
    rw [show stepLive l (.freed id) = some (l.erase id) from if_pos hmem]
    exact hr

/-! ### The queue of a channel -/

/-- The front of the queue leaves it. -/
def takeFront (id : Nat) : List Nat → Option (List Nat)
  | [] => none
  | x :: q => if x = id then some q else none

/-- One event seen by the queue of channel `c`: the segments that wait after it, or `none`
when a segment starts that is not the front of the queue. -/
def stepQueue (c : Nat) (q : List Nat) : MixEvent → Option (List Nat)
  | .accepted d id => if d = c then some (q ++ [id]) else some q
  | .started d id => if d = c then takeFront id q else some q
  | .cleared d => if d = c then some [] else some q
  | _ => some q

/-- A list of events seen by the queue of channel `c`. -/
def runQueue (c : Nat) : List Nat → List MixEvent → Option (List Nat)
  | q, [] => some q
  | q, e :: es => (stepQueue c q e).bind fun q' => runQueue c q' es

theorem runQueue_append (c : Nat) (q : List Nat) (es fs : List MixEvent) :
    runQueue c q (es ++ fs) = (runQueue c q es).bind fun r => runQueue c r fs := by
  induction es generalizing q with
  | nil => rfl
  | cons e es ih =>
    show ((stepQueue c q e).bind fun r => runQueue c r (es ++ fs)) = _
    cases h : stepQueue c q e with
    | none => simp [runQueue, h]
    | some l => simp [runQueue, h, ih]

/-- Frees are nothing to the queue. -/
theorem runQueue_free (c : Nat) (q ids : List Nat) :
    runQueue c q (ids.map .freed) = some q := by
  induction ids with
  | nil => rfl
  | cons id ids ih => exact ih

/-! ### What a function on a channel does -/

/-- Functions on channel `c` that hold the copies `held` before and `held'` after, while the
waiting segments go from `q` to `q'`. -/
structure Does (c : Nat) (held q : List Nat) (es : List MixEvent) (held' q' : List Nat) :
    Prop where
  live : ∀ others, ∃ r, runLive (held ++ others) es = some r ∧ r.Perm (held' ++ others)
  queue : runQueue c q es = some q'
  frame : ∀ d, d ≠ c → ∀ p, runQueue d p es = some p
  copied : ∀ id, .copied id ∉ es

theorem Does.refl (c : Nat) (held q : List Nat) : Does c held q [] held q where
  live _ := ⟨_, rfl, List.Perm.refl _⟩
  queue := rfl
  frame _ _ _ := rfl
  copied _ := List.not_mem_nil

/-- The copies may be listed in another order. -/
theorem Does.congr {c : Nat} {held held' h₁ h₂ q q' : List Nat} {es : List MixEvent}
    (h : Does c held q es held' q') (hp : h₁.Perm held) (hp' : held'.Perm h₂) :
    Does c h₁ q es h₂ q' where
  live others := by
    obtain ⟨r, hr, hpr⟩ := h.live others
    obtain ⟨r', hr', hpr'⟩ := runLive_perm (hp.symm.append_right others) hr
    exact ⟨r', hr', hpr'.symm.trans (hpr.trans (hp'.append_right others))⟩
  queue := h.queue
  frame := h.frame
  copied := h.copied

theorem Does.trans {c : Nat} {h₁ h₂ h₃ q₁ q₂ q₃ : List Nat} {es fs : List MixEvent}
    (h : Does c h₁ q₁ es h₂ q₂) (h' : Does c h₂ q₂ fs h₃ q₃) : Does c h₁ q₁ (es ++ fs) h₃ q₃ where
  live others := by
    obtain ⟨r, hr, hpr⟩ := h.live others
    obtain ⟨t, ht, hpt⟩ := h'.live others
    obtain ⟨t', ht', hpt'⟩ := runLive_perm hpr.symm ht
    refine ⟨t', ?_, hpt'.symm.trans hpt⟩
    rw [runLive_append, hr]
    exact ht'
  queue := by
    rw [runQueue_append, h.queue]
    exact h'.queue
  frame d hd p := by
    rw [runQueue_append, h.frame d hd p]
    exact h'.frame d hd p
  copied id hmem := by
    rcases List.mem_append.mp hmem with hmem | hmem
    · exact h.copied id hmem
    · exact h'.copied id hmem

/-- Freeing some of the copies. -/
theorem Does.free (c : Nat) (ids held q : List Nat) :
    Does c (ids ++ held) q (ids.map .freed) held q where
  live others := runLive_free (by rw [List.append_assoc])
  queue := runQueue_free c q ids
  frame d _ p := runQueue_free d p ids
  copied id hmem := by simp at hmem

/-- Reading a copy that is held. -/
theorem Does.read (c : Nat) {id : Nat} {held : List Nat} (q : List Nat) (hid : id ∈ held) :
    Does c held q [.read id] held q where
  live others := by
    refine ⟨held ++ others, ?_, List.Perm.refl _⟩
    show ((stepLive (held ++ others) (.read id)).bind fun l => runLive l []) = _
    rw [show stepLive (held ++ others) (.read id) = some (held ++ others) from
      if_pos (List.mem_append_left _ hid)]
    rfl
  queue := rfl
  frame _ _ _ := rfl
  copied _ := by simp

/-- Accepting a segment puts it behind the waiting ones. -/
theorem Does.accept (c id : Nat) (held q : List Nat) :
    Does c held q [.accepted c id] held (q ++ [id]) where
  live _ := ⟨_, rfl, List.Perm.refl _⟩
  queue := by simp [runQueue, stepQueue]
  frame d hd p := by simp [runQueue, stepQueue, Ne.symm hd]
  copied _ := by simp

/-- Starting the front of the queue. -/
theorem Does.start (c id : Nat) (held q : List Nat) :
    Does c held (id :: q) [.started c id] held q where
  live _ := ⟨_, rfl, List.Perm.refl _⟩
  queue := by simp [runQueue, stepQueue, takeFront]
  frame d hd p := by simp [runQueue, stepQueue, Ne.symm hd]
  copied _ := by simp

/-- A reset empties the queue. -/
theorem Does.clear (c : Nat) (held q : List Nat) : Does c held q [.cleared c] held [] where
  live _ := ⟨_, rfl, List.Perm.refl _⟩
  queue := by simp [runQueue, stepQueue]
  frame d hd p := by simp [runQueue, stepQueue, Ne.symm hd]
  copied _ := by simp

end VKernel.Proofs.Sound

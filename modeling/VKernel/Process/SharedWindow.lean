import VKernel.Memory.VirtualMemory

/-!
# `VKernel.Process.SharedWindow`: framebuffers shared between processes

A process may draw into memory of another one. The description of the surface names an address
of the sharing process; `remap_target_framebuffer` (`kernel_api.cpp`) and
`remap_framebuffer_override` (`process.cpp`) map its pages once more, from `USER_SHARED_BASE` on
in the address space of the process that draws. The first replaces the surface of a process that
runs, the second is for a process that is being loaded.

Both address spaces have their tables in one memory, so there is one `Vm`: its `tables` are those
of the address space that is mapped into.
-/

set_option autoImplicit false

namespace VKernel.Process

open VKernel VKernel.Memory

/-- `USER_SHARED_BASE`. -/
def USER_SHARED_BASE : Nat := 0x00007E0000000000

/-- `vk_pixel_format_t`. -/
inductive PixelFormat
  | rgbx8bpp | bgrx8bpp | bitmask | bltOnly
  deriving DecidableEq, Repr

/-- `vk_framebuffer_info_t`. -/
structure FramebufferInfo where
  base : Nat
  width : Nat
  height : Nat
  stride : Nat
  format : PixelFormat
  valid : Nat
  deriving DecidableEq, Repr

/-- `vk_framebuffer_info_t{}`. -/
def FramebufferInfo.empty : FramebufferInfo := ⟨0, 0, 0, 0, .rgbx8bpp, 0⟩

/-- `validate_fb`, for a pointer that is not null. -/
def validateFb (fb : FramebufferInfo) : Bool :=
  fb.valid != 0 && fb.base != 0 && decide (0 < fb.width) && decide (0 < fb.height) &&
    decide (fb.width ≤ fb.stride)

/-- `framebuffer::byte_size`, with `none` for `false`. The product of the pixel count with
`sizeof(vk_u32)` is one of `u64`. -/
def FramebufferInfo.byteSize (fb : FramebufferInfo) : Option Nat :=
  if fb.valid = 0 ∨ fb.base = 0 ∨ fb.width = 0 ∨ fb.height = 0 ∨ fb.stride < fb.width then none
  else
    let pixels := fb.stride * fb.height % U64
    let bytes := pixels * 4 % U64
    if pixels = 0 ∨ bytes = 0 ∨ U64 - 1 < bytes then none else some bytes

/-- The first loop: every page of the source, from `offset` on, resolves. -/
def sourceResolves (m : Words) (source : AddressSpace) (start offset : Nat) : Nat → Bool
  | 0 => true
  | n + 1 =>
    (debugResolve m source (add64 start offset)).isSome &&
      sourceResolves m source start (offset + PAGE_SIZE_4K) n

/-- The second loop: map the pages of the source into the target, from `offset` on for `n` pages.
With the answer comes the offset that was reached. -/
def shareLoop (target source : AddressSpace) (start offset : Nat) : Nat → Vm → Bool × Nat × Vm
  | 0, s => (true, offset, s)
  | n + 1, s =>
    match debugResolve s.mem source (add64 start offset) with
    | none => (false, offset, s)
    | some (phys, _) =>
      match s.mapPage target (add64 USER_SHARED_BASE offset) (alignDown phys PAGE_SIZE_4K)
        (MAP_WRITABLE ||| MAP_USER) with
      | (false, s) => (false, offset, s)
      | (true, s) => shareLoop target source start (offset + PAGE_SIZE_4K) n s

/-- The fields of `process_task_context` that a remapping sets. -/
structure FbOverride where
  override : FramebufferInfo
  valid : Bool
  textCol : Nat
  textRow : Nat
  deriving DecidableEq, Repr

/-- `old_mapped_bytes`: the pages that the surface before this one took. -/
def FbOverride.oldMappedBytes (cur : FbOverride) : Nat :=
  if cur.valid = true ∧ USER_SHARED_BASE ≤ cur.override.base ∧ cur.override.base < USER_MAP_LIMIT
  then
    match cur.override.byteSize with
    | none => 0
    | some oldFbBytes =>
      let oldOffset := sub64 cur.override.base (alignDown cur.override.base PAGE_SIZE_4K)
      alignUp (add64 oldOffset oldFbBytes) PAGE_SIZE_4K
  else 0

/-- `mapped_bytes`, for a surface of `fbBytes` bytes. -/
def mappedBytes (fb : FramebufferInfo) (fbBytes : Nat) : Nat :=
  alignUp (add64 (fb.base &&& (PAGE_SIZE_4K - 1)) fbBytes) PAGE_SIZE_4K

/-- `remap_target_framebuffer`. `source` is the address space of the current task. -/
def remapTargetFramebuffer (s : Vm) (target source : Option AddressSpace) (cur : FbOverride)
    (fb : FramebufferInfo) : Bool × FbOverride × Vm :=
  if validateFb fb = false then (false, cur, s)
  else
    match fb.byteSize with
    | none => (false, cur, s)
    | some fbBytes =>
      match target with
      | none => (true, ⟨fb, true, 0, 0⟩, s)
      | some target =>
        if USER_IMAGE_BASE ≤ fb.base ∧ fb.base < USER_MAP_LIMIT then
          match source with
          | none => (false, cur, s)
          | some source =>
            let start := alignDown fb.base PAGE_SIZE_4K
            let bytes := mappedBytes fb fbBytes
            let count := bytes / PAGE_SIZE_4K
            if sourceResolves s.mem source start 0 count = false then (false, cur, s)
            else
              match shareLoop target source start 0 count s with
              | (false, offset, s) =>
                (false, ⟨.empty, false, 0, 0⟩,
                  if 0 < offset then s.unmapRange target USER_SHARED_BASE offset else s)
              | (true, _, s) =>
                let base := USER_SHARED_BASE + (fb.base &&& (PAGE_SIZE_4K - 1))
                -- Stale pages behind the new window go.
                let s := if bytes < cur.oldMappedBytes then
                    s.unmapRange target (add64 USER_SHARED_BASE bytes)
                      (cur.oldMappedBytes - bytes)
                  else s
                (true, ⟨{ fb with base := base }, true, 0, 0⟩, s)
        else (true, ⟨fb, true, 0, 0⟩, s)

/-- `remap_framebuffer_override`: the answer, `output` and `output_valid`. -/
def remapFramebufferOverride (s : Vm) (child source : Option AddressSpace)
    (input : Option FramebufferInfo) : Bool × FramebufferInfo × Bool × Vm :=
  match input with
  | none => (true, .empty, false, s)
  | some input =>
    match input.byteSize with
    | none => (true, input, false, s)
    | some fbBytes =>
      if input.base < USER_IMAGE_BASE ∨ USER_MAP_LIMIT ≤ input.base then (true, input, true, s)
      else
        match source, child with
        | some source, some child =>
          let start := alignDown input.base PAGE_SIZE_4K
          let offset := sub64 input.base start
          let bytes := alignUp (add64 offset fbBytes) PAGE_SIZE_4K
          let count := bytes / PAGE_SIZE_4K
          if sourceResolves s.mem source start 0 count = false then (false, .empty, false, s)
          else
            match shareLoop child source start 0 count s with
            | (false, _, s) =>
              (false, .empty, false, s.unmapRange child USER_SHARED_BASE bytes)
            | (true, _, s) =>
              (true, { input with base := USER_SHARED_BASE + offset }, true, s)
        | _, _ => (false, .empty, false, s)

end VKernel.Process

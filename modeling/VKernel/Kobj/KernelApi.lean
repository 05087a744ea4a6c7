import VKernel.Kobj.Listing

/-!
# `VKernel.Kobj.KernelApi`: the object tree through the kernel API

`stub_kobj_list` has `klist` write the children to an array of its own and copies them to the
array of the caller. The loop runs to the number of children or to the end of the caller's array,
whichever is less, and reads its own array up to there. A read behind the end of that array is
`none` here.
-/

set_option autoImplicit false

namespace VKernel.Kobj

/-- `copy_cstr`: what the destination holds in front of its terminator. -/
def copyCstr (cap : Nat) (src : List UInt8) : List UInt8 := (cstr src).take (cap - 1)

/-- `VK_KOBJ_NAME_MAX`. -/
def VK_KOBJ_NAME_MAX : Nat := 64

/-- The value of a `KTag`. -/
def KTag.code : KTag → Nat
  | .u64 => 0
  | .i64 => 1
  | .bool => 2
  | .str => 3
  | .enum => 4
  | .struct => 5
  | .stream => 6
  | .err => 7

/-- `vk_kobj_child_t`. -/
structure VkKobjChild where
  name : List UInt8
  type : Nat
  deriving DecidableEq, Repr

/-- What `stub_kobj_list` copies of a child. -/
def vkChild (child : KChildInfo) : VkKobjChild :=
  ⟨copyCstr VK_KOBJ_NAME_MAX child.name.chars, child.type.code⟩

/-- A fresh `KChildInfo`. -/
def blankChild : KChildInfo := ⟨⟨[], by decide⟩, .u64⟩

/-- The size of the array `items` of `stub_kobj_list`. -/
def STUB_LIST_ITEMS : Nat := 64

/-- The loop of `stub_kobj_list`, from an index on for a number of rounds. -/
def copyItems (items : List KChildInfo) (index : Nat) :
    Nat → List VkKobjChild → Option (List VkKobjChild)
  | 0, out => some out
  | rounds + 1, out =>
    match items[index]? with
    | none => none
    | some item => copyItems items (index + 1) rounds (out.set index (vkChild item))

/-- `stub_kobj_list`: the result, and the array `out_items` of `max_items` slots if there is
one. -/
def stubKobjList (w : Registries) (path : List UInt8) (outItems : Option (List VkKobjChild)) :
    Option (Nat × Option (List VkKobjChild)) :=
  let listed := klist w path (List.replicate STUB_LIST_ITEMS blankChild)
  match outItems with
  | none => some (listed.1, none)
  | some out =>
    if out.length = 0 then some (listed.1, some out)
    else
      let limit := if listed.1 < out.length then listed.1 else out.length
      (copyItems listed.2 0 limit out).map fun out => (listed.1, some out)

/-- The children that `klist` enumerates for a path. -/
def enumeratedChildren (w : Registries) (path : List UInt8) : List KChildInfo :=
  (klist w path (List.replicate (klist w path []).1 blankChild)).2

/-- The call returns the number of children and fills the front of the array with the first of
them, as far as both go. The other slots stay as they were. -/
def ListedExactly (w : Registries) (path : List UInt8) (out : List VkKobjChild) : Prop :=
  stubKobjList w path (some out) =
    some ((enumeratedChildren w path).length,
      some (((enumeratedChildren w path).map vkChild).take out.length ++
        out.drop (enumeratedChildren w path).length))

end VKernel.Kobj

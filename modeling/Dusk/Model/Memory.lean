import Dusk.Lib.Prog
import Dusk.Lib.Trie
import Dusk.Lib.Lanes

/-! The shared vocabulary of `memory/mod.rs`, the physical memory below it, and
the places where the kernel panics. `PhysicalAddr`, `VirtualAddr`, `FrameAddr`
and the id types wrap a `usize` and are kept as natural numbers; every place
where the kernel's arithmetic could leave 64 bits says so. A `FrameAddr` is kept
by its index: its values are exactly the multiples of `FRAME_SIZE`. -/

namespace Dusk

open Lib

def FRAME_SIZE : ℕ := 4096

/-- One past the largest `usize`. -/
def USIZE_END : ℕ := 2 ^ 64

def checkedAdd (a b : ℕ) : Option ℕ := if a + b < USIZE_END then some (a + b) else none

def checkedSub (a b : ℕ) : Option ℕ := if b ≤ a then some (a - b) else none

/-- `a & !(FRAME_SIZE - 1)`. -/
def alignDownToFrame (addr : ℕ) : ℕ := addr - addr % FRAME_SIZE

def alignUpToFrame (addr : ℕ) : Option ℕ :=
  (checkedAdd addr (FRAME_SIZE - 1)).map alignDownToFrame

/-- `FrameAddr::start_address`. -/
def startAddress (frame : ℕ) : ℕ := frame * FRAME_SIZE

/-- `FrameAddr::from_start_address`. -/
def fromStartAddress (address : ℕ) : Option ℕ :=
  if address % FRAME_SIZE ≠ 0 then none else some (address / FRAME_SIZE)

/-- Physical memory: frames of 512 little-endian words. -/
structure PhysMem where
  frames : Trie (ℕ → Word)

namespace PhysMem

/-- The words of frame `f`. -/
def word (m : PhysMem) (f : ℕ) : ℕ → Word := (m.frames.find f).getD fun _ => 0

def setFrame (m : PhysMem) (f : ℕ) (ws : ℕ → Word) : PhysMem :=
  ⟨m.frames.insert f ws⟩

def setWord (m : PhysMem) (f : ℕ) (i : ℕ) (w : Word) : PhysMem :=
  let old := m.word f
  m.setFrame f fun j => if j = i then w else old j

/-- `write_bytes(frame, 0, FRAME_SIZE)`. -/
def zeroFrame (m : PhysMem) (f : ℕ) : PhysMem := m.setFrame f fun _ => 0

/-- `n` consecutive frames zeroed. -/
def zeroFrames (m : PhysMem) (f : ℕ) : ℕ → PhysMem
  | 0 => m
  | n + 1 => (m.zeroFrame f).zeroFrames (f + 1) n

def byte (m : PhysMem) (p : ℕ) : Byte :=
  lane (m.word (p / FRAME_SIZE) (p % FRAME_SIZE / 8)) (p % 8)

def setByte (m : PhysMem) (p : ℕ) (b : Byte) : PhysMem :=
  m.setWord (p / FRAME_SIZE) (p % FRAME_SIZE / 8)
    (withLane (m.word (p / FRAME_SIZE) (p % FRAME_SIZE / 8)) (p % 8) b)

/-- Bytes `off .. off + n` of frame `f` replaced by `src 0 .. src (n - 1)`. -/
def overlay (m : PhysMem) (f : ℕ) (off n : ℕ) (src : ℕ → Byte) : PhysMem :=
  let old := m.word f
  m.setFrame f fun i => ofLanes fun k =>
    if off ≤ 8 * i + k ∧ 8 * i + k < off + n then src (8 * i + k - off) else lane (old i) k

theorem word_setFrame (m : PhysMem) (f g : ℕ) (ws : ℕ → Word) :
    (m.setFrame f ws).word g = if g = f then ws else m.word g := by
  simp only [word, setFrame, Trie.find_insert]
  split_ifs <;> rfl

@[simp] theorem word_setWord (m : PhysMem) (f g : ℕ) (i j : ℕ) (w : Word) :
    (m.setWord f i w).word g j = if g = f ∧ j = i then w else m.word g j := by
  simp only [setWord, word_setFrame]
  by_cases hg : g = f
  · subst hg
    by_cases hj : j = i <;> simp [hj]
  · simp [hg]

theorem frame_setWord (m : PhysMem) {f g : ℕ} (h : g ≠ f) (i : ℕ) (w : Word) :
    (m.setWord f i w).word g = m.word g := by
  simp [setWord, word_setFrame, h]

@[simp] theorem word_zeroFrame (m : PhysMem) (f g : ℕ) :
    (m.zeroFrame f).word g = if g = f then fun _ => 0 else m.word g :=
  word_setFrame m f g _

theorem frame_setByte (m : PhysMem) {p : ℕ} {g : ℕ} (h : g ≠ p / FRAME_SIZE)
    (b : Byte) : (m.setByte p b).word g = m.word g := frame_setWord m h _ _

theorem byte_setByte (m : PhysMem) (p q : ℕ) (b : Byte) :
    (m.setByte p b).byte q = if q = p then b else m.byte q := by
  unfold byte setByte
  rw [word_setWord]
  by_cases hw : q / FRAME_SIZE = p / FRAME_SIZE ∧ q % FRAME_SIZE / 8 = p % FRAME_SIZE / 8
  · rw [if_pos hw, lane_withLane _ _ _ _ (by omega), ← hw.1, ← hw.2]
    have hiff : q % 8 = p % 8 ↔ q = p := by
      simp only [FRAME_SIZE] at hw
      omega
    simp only [hiff]
  · rw [if_neg hw]
    have hne : q ≠ p := by
      rintro rfl
      exact hw ⟨rfl, rfl⟩
    rw [if_neg hne]

theorem word_overlay_of_ne (m : PhysMem) {f g : ℕ} (h : g ≠ f) (off n : ℕ)
    (src : ℕ → Byte) : (m.overlay f off n src).word g = m.word g := by
  simp [overlay, word_setFrame, h]

theorem word_zeroFrames (m : PhysMem) (f : ℕ) (n : ℕ) (g : ℕ) :
    (m.zeroFrames f n).word g = if f ≤ g ∧ g < f + n then fun _ => 0 else m.word g := by
  induction n generalizing m f with
  | zero => simp [zeroFrames]
  | succ n ih =>
    rw [zeroFrames, ih, word_zeroFrame]
    by_cases hg : g = f
    · subst hg; simp
    · by_cases h : f + 1 ≤ g ∧ g < f + 1 + n
      · rw [if_pos h, if_pos ⟨by omega, by omega⟩]
      · rw [if_neg h, if_neg hg, if_neg (by omega)]

/-- A byte depends only on the frame that holds it. -/
theorem byte_congr {m m' : PhysMem} {p : ℕ}
    (h : m'.word (p / FRAME_SIZE) = m.word (p / FRAME_SIZE)) : m'.byte p = m.byte p := by
  simp [byte, h]

end PhysMem

structure PagePermissions where
  writable : Bool
  executable : Bool
  userAccessible : Bool
  deriving DecidableEq, Repr

inductive MemoryRegionKind where
  | usable | reserved | acpiReclaimable | acpiNvs | badMemory | bootloaderReclaimable
  | kernelAndModules | framebuffer | mappedReserved
  deriving DecidableEq, Repr

inductive CachePolicy where
  | uncacheable | writeBack
  deriving DecidableEq, Repr

structure MemoryRegion where
  start : ℕ
  length : ℕ
  kind : MemoryRegionKind

structure KernelSegment where
  physicalBase : ℕ
  virtualBase : ℕ
  length : ℕ
  permissions : PagePermissions

structure InitramfsImage where
  start : ℕ
  length : ℕ

/-- The higher-half linear map of physical memory. -/
structure DirectMap where
  offset : ℕ
  deriving DecidableEq

def DirectMap.translate (dm : DirectMap) (addr : ℕ) : Option ℕ :=
  checkedAdd addr dm.offset

/-- The physical address behind a direct-map pointer. -/
def DirectMap.physical (dm : DirectMap) (addr : ℕ) : ℕ := addr - dm.offset

/-- The places where the memory subsystem panics, by the message or the assertion
there; the last one is the fault of a kernel access to a page not mapped for it. -/
inductive Panic where
  | arithmeticOverflow
  | frameIndexOutOfBounds | invalidFrameState | frameOutsideDirectMap
  | freeFreeFrame | freeReservedFrame | invalidMemoryRegion
  | tableLeftDirectMap | tableOutsideDirectMap | invalidPageTableEntry | destroyActiveTable
  | rollBackMappedPage | rollBackStackMapping | stackMappingMissing | guardPageMapped
  | kernelPageFault
  deriving DecidableEq, Repr

end Dusk

import GameBoy.Proofs.Machine.Reset
import GameBoy.Proofs.Memory.Arrival

/-!
# The cartridge window

Loading a program copies it over what lies in the cartridge window, and a reset copies the program
that is remembered into an empty one. Nothing else reaches the window. So it shows the programs that
were mapped since power-on or the last reset, lying over each other with the latest one on top
(`Machine.layersOf`, `Machine.shows_performAll`). Behind the end of the latest one, an earlier and
longer one remains in sight.

Main theorem: `Machine.reset_keeps_window_iff`. A reset keeps the window if and only if the program
loaded last covers the others, that is, if they show nothing but zeros behind its end. A program
covers all that are as short.
-/

namespace GameBoy

/-! ## Programs over each other -/

/-- The part of a program that is mapped. -/
def Memory.mapped (image : Array Byte) (window : Nat) : Array Byte :=
  image.extract 0 (mappedLength image window)

/-- What some images show that lie over each other, the first one on top: each byte is that of the
first image which reaches it, and zero where none does. -/
def layered (layers : List (Array Byte)) (i : Nat) : Byte :=
  match layers with
  | [] => 0
  | image :: layers => if i < image.size then image.getD i 0 else layered layers i

/-- An image lies on top of some layers, or they show what they would show under it. -/
def OnTop (image : Array Byte) (layers : List (Array Byte)) : Prop :=
  ∃ older, layered layers = layered (image :: older)

/-- In the window, some layers show nothing but zeros behind the end of an image. -/
def Covers (image : Array Byte) (layers : List (Array Byte)) : Prop :=
  ∀ addr : Word, addr < 0x8000 → image.size ≤ addr.toNat → layered layers addr.toNat = 0

variable {image : Array Byte} {layers : List (Array Byte)} {i : Nat}

theorem layered_cons_of_lt (h : i < image.size) : layered (image :: layers) i = image.getD i 0 :=
  if_pos h

theorem layered_cons_of_le (h : image.size ≤ i) : layered (image :: layers) i = layered layers i :=
  if_neg (Nat.not_lt.mpr h)

theorem layered_singleton (image : Array Byte) (i : Nat) : layered [image] i = image.getD i 0 := by
  by_cases h : i < image.size
  · exact layered_cons_of_lt h
  · simp [layered, h]

theorem layered_of_size_le (h : ∀ image ∈ layers, image.size ≤ i) : layered layers i = 0 := by
  induction layers with
  | nil => rfl
  | cons image layers ih =>
    rw [layered_cons_of_le (h image List.mem_cons_self)]
    exact ih fun other hother => h other (List.mem_cons_of_mem _ hother)

theorem covers_of_size_le (h : ∀ older ∈ layers, older.size ≤ image.size) : Covers image layers :=
  fun _ _ hi => layered_of_size_le fun older holder => Nat.le_trans (h older holder) hi

theorem covers_cons_iff : Covers image (image :: layers) ↔ Covers image layers := by
  refine forall_congr' fun addr => forall_congr' fun _ => forall_congr' fun hi => ?_
  rw [layered_cons_of_le hi]

/-- Only the image on top shows, followed by zeros, exactly if it covers the layers. -/
theorem OnTop.layered_eq_iff (h : OnTop image layers) :
    (∀ addr : Word, addr < 0x8000 → layered layers addr.toNat = image.getD addr.toNat 0) ↔
      Covers image layers := by
  obtain ⟨older, holder⟩ := h
  refine forall_congr' fun addr => forall_congr' fun _ => ?_
  by_cases hi : addr.toNat < image.size
  · simp [holder, layered_cons_of_lt hi, Nat.not_le.mpr hi]
  · rw [← layered_singleton, layered_cons_of_le (Nat.le_of_not_lt hi)]
    exact (imp_iff_right (Nat.le_of_not_lt hi)).symm

theorem Memory.mapped_empty (window : Nat) : mapped #[] window = #[] := by simp [mapped]

theorem Memory.size_mapped (image : Array Byte) (window : Nat) :
    (mapped image window).size = mappedLength image window := by
  simp only [mapped, Array.size_extract, mappedLength]
  omega

/-- A program shows its mapped part, over what was there. -/
theorem Memory.read_overlay_mapped (m : Memory) (image : Array Byte) (window : Nat) (addr : Word) :
    (m.overlay image (mappedLength image window)).read addr =
      if addr.toNat < (mapped image window).size then (mapped image window).getD addr.toNat 0
      else m.read addr := by
  rw [read_overlay, size_mapped]
  by_cases h : addr.toNat < mappedLength image window
  · have hsize := Nat.lt_of_lt_of_le h (Nat.min_le_left _ _)
    have hmin := Nat.lt_min.mpr ⟨h, hsize⟩
    simp [mapped, Array.getD, h, hsize, hmin]
  · rw [if_neg h, if_neg h]

namespace Machine

variable {ρ : Type} {m : Machine ρ}

/-! ## What lies in the window -/

/-- The window shows some layers. -/
def Shows (m : Machine ρ) (layers : List (Array Byte)) : Prop :=
  ∀ addr : Word, addr < 0x8000 → m.memory.read addr = layered layers addr.toNat

/-- What has been mapped after an operation, the latest first. A program that is mapped comes on
top, and a reset leaves the one that is remembered. -/
def layersAfter (m : Machine ρ) (layers : List (Array Byte)) : Operation → List (Array Byte)
  | .load image =>
    if image.isEmpty then layers else Memory.mapped image m.config.window :: layers
  | .map image window => if image.isEmpty then layers else Memory.mapped image window :: layers
  | .reset => [Memory.mapped m.program m.config.window]
  | _ => layers

theorem shows_overlay {memory : Memory}
    (h : ∀ addr : Word, addr < 0x8000 → memory.read addr = layered layers addr.toNat)
    (image : Array Byte) (window : Nat) (addr : Word) (haddr : addr < 0x8000) :
    (memory.overlay image (Memory.mappedLength image window)).read addr =
      layered (Memory.mapped image window :: layers) addr.toNat := by
  rw [Memory.read_overlay_mapped, h addr haddr]
  rfl

theorem read_powerOn_window (addr : Word) (haddr : addr < 0x8000) :
    Memory.powerOn.read addr = layered [] addr.toNat := by
  have : addr.toNat < 0x8000 := haddr
  exact Memory.read_powerOn_of_lt (by omega)

theorem shows_reset (m : Machine ρ) : m.reset.Shows [Memory.mapped m.program m.config.window] := by
  intro addr haddr
  show (if m.program.isEmpty then Memory.powerOn else _ : Memory).read addr = _
  split
  · rename_i hempty
    rw [read_powerOn_window addr haddr, Array.isEmpty_iff.mp hempty]
    rfl
  · exact shows_overlay read_powerOn_window _ _ addr haddr

variable [LineRenderer ρ]

/-- What has been mapped after some operations, the latest first. -/
def layersOf (m : Machine ρ) (layers : List (Array Byte)) : List Operation → List (Array Byte)
  | [] => layers
  | op :: ops => (m.perform op).layersOf (m.layersAfter layers op) ops

/-- The layers are what an operation leaves in the window: only the operations that map a program
change it. -/
theorem shows_perform (hm : m.UnusableClear) (h : m.Shows layers) (op : Operation) :
    (m.perform op).Shows (m.layersAfter layers op) := by
  have hkept : ¬ op.MapsProgram → (m.perform op).Shows layers := by
    intro hop addr haddr
    have hwindow : Memory.ReadOnly addr := Memory.readOnly_iff.mpr (.inl haddr)
    exact (kept_readOnly hwindow _).perform hm hop (h addr haddr)
  cases op with
  | load image =>
    cases he : image.isEmpty with
    | true => simpa [perform, load_of_empty he, layersAfter, he] using h
    | false =>
      intro addr haddr
      simp only [perform, load_of_nonempty he, layersAfter, he]
      exact shows_overlay h _ _ addr haddr
  | map image window =>
    intro addr haddr
    simp only [perform, layersAfter, Memory.load]
    cases image.isEmpty with
    | true => exact h addr haddr
    | false => exact shows_overlay h _ _ addr haddr
  | reset => exact m.shows_reset
  | step | stepFrame | write | write16 | setCpu => exact hkept id

theorem shows_performAll (hm : m.UnusableClear) (h : m.Shows layers) (ops : List Operation) :
    (m.performAll ops).Shows (m.layersOf layers ops) := by
  induction ops generalizing m layers with
  | nil => exact h
  | cons op ops ih => exact ih (unusableClear_perform hm op) (shows_perform hm h op)

/-! ## The program that is remembered -/

/-- The part of it that is mapped. -/
def current (m : Machine ρ) : Array Byte := Memory.mapped m.program m.config.window

theorem current_perform (hm : m.UnusableClear) (op : Operation) :
    (m.perform op).current =
      Memory.mapped ((m.loaded? op).getD m.program) m.config.window := by
  obtain ⟨hconfig, hprogram⟩ := Prod.mk.inj (origin_perform hm op)
  rw [current, hconfig, hprogram]

/-- The program that is remembered stays on top, unless an image is copied past the machine. -/
theorem onTop_perform (hm : m.UnusableClear) (h : OnTop m.current layers) {op : Operation}
    (hop : ∀ image window, op ≠ .map image window) :
    OnTop (m.perform op).current (m.layersAfter layers op) := by
  rw [current_perform hm]
  cases op with
  | load image =>
    cases he : image.isEmpty with
    | true => simpa [layersAfter, loaded?, load_of_empty he, he, current] using h
    | false => exact ⟨layers, by simp [layersAfter, loaded?, load_of_nonempty he, he]⟩
  | map image window => exact absurd rfl (hop image window)
  | reset => exact ⟨[], rfl⟩
  | step | stepFrame | write | write16 | setCpu => exact h

theorem onTop_performAll (hm : m.UnusableClear) (h : OnTop m.current layers) {ops : List Operation}
    (hops : ∀ image window, .map image window ∉ ops) :
    OnTop (m.performAll ops).current (m.layersOf layers ops) := by
  induction ops generalizing m layers with
  | nil => exact h
  | cons op ops ih =>
    refine ih (unusableClear_perform hm op) (onTop_perform hm h ?_) ?_
    · rintro image window rfl
      exact hops image window List.mem_cons_self
    · exact fun image window hmem => hops image window (List.mem_cons_of_mem _ hmem)

/-! ## Resetting -/

/-- **The cartridge window.** Take any settings, any renderer, and any operations from power-on on
but those that copy an image past the machine. The window shows the programs that were mapped since
power-on or the last reset, the latest on top. A reset shows the program loaded last, followed by
zeros. So it keeps the window, byte for byte, exactly if that program covers the others. In the same
way a load leaves its program followed by zeros exactly if that program covers those mapped before.
A program covers all that are as short. -/
theorem reset_keeps_window_iff (config : Config) (renderer : ρ) (ops : List Operation)
    (hops : ∀ image window, .map image window ∉ ops) :
    let start := create config renderer
    let m := start.performAll ops
    let layers := start.layersOf [] ops
    let last := Memory.mapped ((start.lastLoaded? ops).getD #[]) config.window
    m.Shows layers ∧
      (∀ addr : Word, addr < 0x8000 → m.reset.memory.read addr = last.getD addr.toNat 0) ∧
      ((∀ addr : Word, addr < 0x8000 → m.reset.memory.read addr = m.memory.read addr) ↔
        Covers last layers) ∧
      (∀ image, (m.load image).result = .ok () →
        let part := Memory.mapped image config.window
        ((∀ addr : Word, addr < 0x8000 →
          (m.load image).state.memory.read addr = part.getD addr.toNat 0) ↔ Covers part layers)) ∧
      ∀ image, (∀ older ∈ layers, older.size ≤ image.size) → Covers image layers := by
  intro start m layers last
  have hstart : start.UnusableClear := (Reachable.create config renderer).unusableClear
  obtain ⟨hconfig, hprogram⟩ := Prod.mk.inj (origin_performAll hstart ops)
  replace hconfig : m.config = config := hconfig
  have hm : m.UnusableClear := (Reachable.performAll (.create config renderer) ops).unusableClear
  have hlast : m.current = last := by
    rw [current, hconfig]
    exact congrArg (Memory.mapped · config.window) hprogram
  have hshows : m.Shows layers := shows_performAll hstart read_powerOn_window ops
  have hreset : ∀ addr : Word, addr < 0x8000 →
      m.reset.memory.read addr = last.getD addr.toNat 0 := by
    intro addr haddr
    rw [← hlast, ← layered_singleton]
    exact m.shows_reset addr haddr
  have hnew : OnTop start.current [] := by
    show OnTop (Memory.mapped #[] config.window) []
    rw [Memory.mapped_empty]
    exact ⟨[], funext fun i => (layered_cons_of_le (Nat.zero_le i)).symm⟩
  have htop : OnTop last layers := hlast ▸ onTop_performAll hstart hnew hops
  refine ⟨hshows, hreset, ?_, ?_, fun image => covers_of_size_le⟩
  · rw [← htop.layered_eq_iff]
    refine forall_congr' fun addr => forall_congr' fun haddr => ?_
    rw [hshows addr haddr, hreset addr haddr, eq_comm]
  · intro image hloads part
    have he : image.isEmpty = false := by
      cases he : image.isEmpty with
      | true => simp [load_of_empty he] at hloads
      | false => rfl
    have hloaded : (m.load image).state.Shows (part :: layers) := by
      simpa [layersAfter, he, hconfig, perform, part] using shows_perform hm hshows (.load image)
    rw [← covers_cons_iff, ← OnTop.layered_eq_iff ⟨layers, rfl⟩]
    refine forall_congr' fun addr => forall_congr' fun haddr => ?_
    rw [← hloaded addr haddr]

/-- A program loaded over a shorter one, with a write to the window that is dropped. -/
theorem reset_keeps_window_over_shorter :
    let ops : List Operation := [.load #[0x11], .write 0x0000 0x99, .load #[0x44, 0x55]]
    let m : Machine LineRecorder := (create {} {}).performAll ops
    (∀ image window, .map image window ∉ ops) ∧
      ∀ addr : Word, addr < 0x8000 → m.reset.memory.read addr = m.memory.read addr := by
  intro ops m
  have hops : ∀ image window, .map image window ∉ ops := by simp [ops]
  obtain ⟨-, -, hkeeps, -, hcovers⟩ := reset_keeps_window_iff {} ({} : LineRecorder) ops hops
  refine ⟨hops, hkeeps.mpr (hcovers _ ?_)⟩
  decide

/-- Behind the end of a program the one that was loaded before shows, until a reset drops it. -/
theorem reset_drops_longer :
    let m : Machine LineRecorder :=
      (create {} {}).performAll [.load #[0x11, 0x22, 0x33], .load #[0x44]]
    m.memory.read 0x0001 = 0x22 ∧ m.reset.memory.read 0x0001 = 0x00 := by
  intro m
  have hstart := (Reachable.create {} ({} : LineRecorder)).unusableClear
  exact ⟨shows_performAll hstart read_powerOn_window _ 0x0001 (by decide),
    m.shows_reset 0x0001 (by decide)⟩

end Machine

end GameBoy

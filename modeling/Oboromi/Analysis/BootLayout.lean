import Oboromi.Analysis.CodeLoading
import Oboromi.Analysis.ObjectTable
import Oboromi.Interface.BootRuns

/-!
# The image and the regions around it

Boot maps five regions at fixed addresses and loads the image below the first of them that
is not the kernel's own.  The code region holds four megabytes, so it is that size, and not
the bound of 64 megabytes on a package, that decides whether the image is intact.
-/

set_option autoImplicit false

namespace Oboromi.Analysis

open Oboromi.Lib Oboromi.Model Oboromi.Interface

/-! ## What boot maps -/

def kernelRegions : List MemoryRegion :=
  [⟨0x80000, 0x400000, .RX, .codeStatic⟩, ⟨0x480000, 0x100000, .RW, .stack⟩]

def homeMenuRegions : List MemoryRegion :=
  [⟨0x1000000, 0x800000, .RX, .codeStatic⟩, ⟨0x1800000, 0x100000, .RW, .stack⟩]

/-- The kernel process with its main thread. -/
def kernelProcess : Process :=
  { Process.new 1 "kernel" Boot.KERNEL_BASE Boot.KERNEL_CODE_SIZE with
    memoryMap := kernelRegions
    threads := HashMap.empty.insert 1 { Thread.new 1 1 Boot.KERNEL_BASE Boot.KERNEL_STACK_TOP with
      name := "kernel-main"
      state := .ready }
    nextThreadId := 2 }

/-- The kernel after phase 3. -/
def startedKernel (cpu : CpuManager) (ports : HashMap String Handle) : Kernel :=
  { Kernel.new with
    processes := HashMap.empty.insert 1 kernelProcess
    cpu := cpu
    nextPid := 2
    handleTable := HashMap.empty.insert 0x1000 (1, 1)
    nextHandle := 0x1001
    namedPorts := ports }

/-- Ports are registered whatever else the kernel holds. -/
theorem registerPorts_eq (ports : List (String × ℕ)) (k : Kernel) :
    ports.foldlM (fun k port => k.registerPort port.1 (Boot.portHandle port.2)) k =
      (ports.foldlM (fun (named : HashMap String Handle) port =>
        named.tryInsert port.1 (Boot.portHandle port.2)) k.namedPorts).map
          fun named => { k with namedPorts := named } := by
  induction ports generalizing k with
  | nil => rfl
  | cons port ports ih =>
      rw [List.foldlM_cons, List.foldlM_cons]
      unfold Kernel.registerPort
      cases hinsert : k.namedPorts.tryInsert port.1 (Boot.portHandle port.2) with
      | error e => rfl
      | ok named =>
          rw [ok_bind, ok_bind]
          exact ih { k with namedPorts := named }

/-- Registering the core ports only changes the table of ports. -/
theorem registerCorePorts_started (cpu : CpuManager) :
    ∃ ports, Boot.registerCorePorts (startedKernel cpu HashMap.empty) =
      .ok (startedKernel cpu ports) := by
  obtain ⟨ports, hports⟩ : ∃ ports : HashMap String Handle,
      Boot.corePorts.zipIdx.foldlM
        (fun (named : HashMap String Handle) port =>
          named.tryInsert port.1 (Boot.portHandle port.2)) HashMap.empty = .ok ports := ⟨_, rfl⟩
  refine ⟨ports, ?_⟩
  unfold Boot.registerCorePorts
  rw [registerPorts_eq]
  show Except.map _ (Boot.corePorts.zipIdx.foldlM _ HashMap.empty) = _
  rw [hports]
  rfl

/-- Eight new cores over a memory. -/
def coresOver (mem : SharedMemory) : CpuManager := { Kernel.new.cpu with sharedMemory := mem }

/-- SOURCE: core/src/sys/boot.rs:136-151 -/
theorem startKernelProcess_eq (b : Build) (mem : SharedMemory) :
    Boot.startKernelProcess b { Kernel.new with cpu := coresOver mem } =
      .ok (startedKernel (coresOver mem) HashMap.empty) := by
  cases b with
  | debug => rfl
  | release => rfl

/-- Zeros, and over them what is mapped of an image. -/
def imageMemory (image : List UInt8) : SharedMemory :=
  Kernel.new.cpu.sharedMemory.overlay Boot.KERNEL_BASE.toNat image

/-- SOURCE: core/src/sys/boot.rs:129-151 -/
theorem loadKernel_eq (b : Build) (emu : Emulator) {image : List UInt8}
    (h : Boot.KERNEL_BASE.toNat + image.length ≤ 2 ^ 64) :
    Boot.loadKernel b emu image =
      .ok (startedKernel (coresOver (imageMemory image)) HashMap.empty) := by
  have hload := loadCode_aligned b emu Boot.KERNEL_BASE Kernel.new (by decide) h
  unfold Boot.loadKernel
  rw [hload, ok_bind]
  exact startKernelProcess_eq b (imageMemory image)

/-- The home menu with its main thread. -/
def homeMenuProcess : Process :=
  { Process.new 2 "qlaunch" Boot.QLAUNCH_BASE Boot.QLAUNCH_CODE_SIZE with
    memoryMap := homeMenuRegions
    threads := HashMap.empty.insert 1 { Thread.new 1 2 Boot.QLAUNCH_BASE Boot.QLAUNCH_STACK_TOP with
      name := "qlaunch-main"
      state := .ready }
    nextThreadId := 2 }

/-- The kernel after phase 4. -/
def bootedKernel (cpu : CpuManager) (ports : HashMap String Handle) : Kernel :=
  { startedKernel cpu ports with
    processes := (HashMap.empty.insert 1 kernelProcess).insert 2 homeMenuProcess
    nextPid := 3
    handleTable := (HashMap.empty.insert 0x1000 (1, 1)).insert 0x1001 (2, 1)
    nextHandle := 0x1002 }

/-- What phase 4 keeps and adds.
SOURCE: core/src/sys/boot.rs:178-200 -/
theorem startHomeMenu_eq (b : Build) (emu : Emulator) (mem : SharedMemory)
    (ports : HashMap String Handle) :
    Boot.startHomeMenu b emu (startedKernel (coresOver mem) ports) = .ok (bootedKernel
      (coresOver (mem.overlay Boot.QLAUNCH_BASE.toNat Boot.stubKernel)) ports) := by
  have hload (k : Kernel) := loadCode_eq b emu Boot.QLAUNCH_BASE k
    (show Boot.QLAUNCH_BASE.toNat + Boot.stubKernel.length ≤ MEMORY_SIZE by decide)
  unfold Boot.startHomeMenu
  simp only [hload]
  cases b with
  | debug => rfl
  | release => rfl

/-! ## Images from the NAND -/

/-- A read that succeeds returns as many bytes as were asked for. -/
theorem readExact_length {n : ℕ} {s s' : EmulatedStorage} {data : List UInt8}
    (h : (EmulatedStorage.readExact n).run s = (.ok data, s')) : data.length = n := by
  have hfile : (s.file.readExact n).1 = .ok data := congrArg Prod.fst h
  unfold HostFile.readExact at hfile
  split at hfile
  · next hroom =>
      cases hfile
      exact length_segment hroom
  · cases hfile

/-- A byte read returns a buffer of the length it was given. -/
theorem readBytes_length {b : Build} {offset : UInt64} {buf : Buffer} {s s' : EmulatedStorage}
    {r : ℕ × List UInt8} (h : (EmulatedStorage.readBytes b offset buf).run s = (.ok r, s')) :
    r.2.length = buf.bytes.length := by
  obtain ⟨_, _, -, h⟩ := Sys.run_bind_eq_ok h
  obtain ⟨_, _, -, h⟩ := Sys.run_bind_eq_ok h
  split at h
  · cases h
  · obtain ⟨_, _, -, h⟩ := Sys.run_bind_eq_ok h
    obtain ⟨data, _, hread, h⟩ := Sys.run_bind_eq_ok h
    cases h
    exact readExact_length hread

/-- A partition read returns a buffer of the length it was given. -/
theorem readPartition_length {b : Build} {t : PartitionTable} {id : PartitionId} {offset : UInt64}
    {buf : Buffer} {s s' : EmulatedStorage} {r : ℕ × List UInt8}
    (h : (t.readPartition b id offset buf).run s = (.ok r, s')) :
    r.2.length = buf.bytes.length := by
  unfold PartitionTable.readPartition at h
  split at h
  · cases h
  · obtain ⟨_, _, -, h⟩ := Sys.run_bind_eq_ok h
    obtain ⟨_, _, -, h⟩ := Sys.run_bind_eq_ok h
    obtain ⟨_, _, -, h⟩ := Sys.run_bind_eq_ok h
    split at h
    · cases h
    · obtain ⟨_, _, -, h⟩ := Sys.run_bind_eq_ok h
      obtain ⟨_, _, -, h⟩ := Sys.run_bind_eq_ok h
      exact readBytes_length h

/-- A read through `Nand` returns a buffer of the length it was given. -/
theorem nandRead_length {b : Build} {id : PartitionId} {offset : UInt64} {buf : Buffer}
    {nand nand' : Nand} {r : ℕ × List UInt8}
    (h : (Nand.read b id offset buf).run nand = (.ok r, nand')) :
    r.2.length = buf.bytes.length := by
  have hpartition : ((nand.partitions.readPartition b id offset buf).run nand.storage).1 = .ok r :=
    congrArg Prod.fst h
  exact readPartition_length (Prod.ext hpartition rfl)

/-- A package is between one byte and 64 megabytes long. -/
theorem readPackage_length {b : Build} {nand nand' : Nand} {image : List UInt8}
    (h : (Boot.readPackage b).run nand = (.ok (some image), nand')) :
    0 < image.length ∧ image.length < 64 * 1024 * 1024 := by
  obtain ⟨header, _, -, h⟩ := Sys.run_bind_eq_ok h
  split at h
  · simp only at h
    split at h
    · next hsize =>
        obtain ⟨buf, _, hread, h⟩ := Sys.run_bind_eq_ok h
        cases h
        have hlen : buf.2.length = (Boot.packageSize header.2).toNat :=
          (nandRead_length hread).trans List.length_replicate
        obtain ⟨hpos, hmax⟩ := hsize
        have hpos : 0 < (Boot.packageSize header.2).toNat := UInt32.lt_iff_toNat_lt.mp hpos
        have hmax : (Boot.packageSize header.2).toNat < 64 * 1024 * 1024 :=
          UInt32.lt_iff_toNat_lt.mp hmax
        omega
    · cases h
  · cases h

/-- **An image from the NAND is between one byte and 64 megabytes long**, so it is loaded into
memory as a whole.
SOURCE: core/src/sys/boot.rs:217-263 -/
theorem nandImage_length {b : Build} {host : Boot.Host} {config : Boot.FirmwareConfig}
    {image : List UInt8} (hpath : config.package2Path = none)
    (h : Boot.loadKernelImage b host config = .ok image) :
    0 < image.length ∧ image.length < 64 * 1024 * 1024 ∧
      Boot.KERNEL_BASE.toNat + image.length ≤ MEMORY_SIZE := by
  have hbase : Boot.KERNEL_BASE.toNat = 0x80000 := rfl
  have hmemory : MEMORY_SIZE = 0x300000000 := rfl
  unfold Boot.loadKernelImage at h
  rw [hpath] at h
  simp only at h
  split at h
  · obtain ⟨_, -, h⟩ := bind_eq_ok h
    obtain ⟨nand, -, h⟩ := bind_eq_ok h
    obtain ⟨found, hread, h⟩ := bind_eq_ok h
    split at h
    · next image' =>
        cases h
        obtain ⟨hpos, hmax⟩ := readPackage_length (Prod.ext hread rfl)
        exact ⟨hpos, hmax, by omega⟩
    · cases h
  · cases h

/-! ## The image in memory -/

section Memory

variable {b : Build} {image : List UInt8}

/-- What boot maps and loads. -/
structure Laid (k : Kernel) (image : List UInt8) : Prop where
  memory : k.cpu.sharedMemory =
    (Kernel.new.cpu.sharedMemory.overlay Boot.KERNEL_BASE.toNat image).overlay
      Boot.QLAUNCH_BASE.toNat Boot.stubKernel
  regions : k.processes.entries.map (fun e => (e.1, e.2.memoryMap)) =
    [(1, kernelRegions), (2, homeMenuRegions)]

/-- SOURCE: core/src/sys/boot.rs:111-115 -/
theorem kernelImage_of_ok {host : Boot.Host} {config : Boot.FirmwareConfig}
    (h : Boot.loadKernelImage b host config = .ok image) :
    Boot.kernelImage b host config = .ok image := by
  unfold Boot.kernelImage
  rw [h]

/-- SOURCE: core/src/sys/boot.rs:116-122 -/
theorem kernelImage_of_error {host : Boot.Host} {config : Boot.FirmwareConfig} {e : IoError}
    (h : Boot.loadKernelImage b host config = .error (.io e)) :
    Boot.kernelImage b host config = .ok Boot.stubKernel := by
  unfold Boot.kernelImage
  rw [h]

/-- An image that is found is loaded.
SOURCE: core/src/sys/boot.rs:109-200 -/
theorem loadAndStart_eq (b : Build) (emu : Emulator) {host : Boot.Host}
    {config : Boot.FirmwareConfig} (himage : Boot.kernelImage b host config = .ok image)
    (h : Boot.KERNEL_BASE.toNat + image.length ≤ 2 ^ 64) :
    ∃ ports, Boot.registerCorePorts (startedKernel (coresOver (imageMemory image)) HashMap.empty) =
        .ok (startedKernel (coresOver (imageMemory image)) ports) ∧
      Boot.loadAndStart b emu host config = .ok (image, bootedKernel
        (coresOver ((imageMemory image).overlay Boot.QLAUNCH_BASE.toNat Boot.stubKernel))
        ports) := by
  obtain ⟨ports, hports⟩ := registerCorePorts_started (coresOver (imageMemory image))
  refine ⟨ports, hports, ?_⟩
  unfold Boot.loadAndStart
  simp only [himage, ok_bind, loadKernel_eq b emu h, hports, startHomeMenu_eq]
  rfl

/-- The booted kernel has the image where boot lays it. -/
theorem laid_booted (ports : HashMap String Handle) : Laid (bootedKernel
    (coresOver ((imageMemory image).overlay Boot.QLAUNCH_BASE.toNat Boot.stubKernel)) ports)
    image := ⟨rfl, rfl⟩

/-- A process has the regions boot mapped for it. -/
theorem Laid.region {k : Kernel} (h : Laid k image) {pid : ProcessId} {p : Process}
    (hp : k.processes.get pid = some p) :
    (pid = 1 ∧ p.memoryMap = kernelRegions) ∨ (pid = 2 ∧ p.memoryMap = homeMenuRegions) := by
  have hmem := (HashMap.get_eq_some_iff _ _ _).mp hp
  have hmap : (pid, p.memoryMap) ∈ k.processes.entries.map fun e => (e.1, e.2.memoryMap) :=
    List.mem_map.mpr ⟨(pid, p), hmem, rfl⟩
  rw [h.regions] at hmap
  simpa using hmap

/-- The kernel process exists, with the two regions that boot maps for it. -/
theorem Laid.kernel {k : Kernel} (h : Laid k image) :
    ∃ p, k.processes.get 1 = some p ∧ p.memoryMap = kernelRegions := by
  have hmap : (1, kernelRegions) ∈ k.processes.entries.map fun e => (e.1, e.2.memoryMap) := by
    rw [h.regions]
    exact List.mem_cons_self
  obtain ⟨⟨pid, p⟩, hmem, heq⟩ := List.mem_map.mp hmap
  obtain ⟨rfl, hregions⟩ := Prod.mk.inj heq
  exact ⟨p, (HashMap.get_eq_some_iff _ _ _).mpr hmem, hregions⟩

/-- The image's bytes below the home menu's base are the image's. -/
theorem Laid.byteAt {k : Kernel} (h : Laid k image) {i : ℕ} (hi : i < image.length)
    (hlow : Boot.KERNEL_BASE.toNat + i < Boot.QLAUNCH_BASE.toNat) :
    some (k.cpu.sharedMemory.byteAt (Boot.KERNEL_BASE.toNat + i)) = image[i]? := by
  have hbase : Boot.QLAUNCH_BASE.toNat = 0x1000000 := rfl
  have hsize : MEMORY_SIZE = 0x300000000 := rfl
  have hin : Boot.KERNEL_BASE.toNat + i < MEMORY_SIZE := by omega
  have hbyte : k.cpu.sharedMemory.byteAt (Boot.KERNEL_BASE.toNat + i) =
      k.cpu.sharedMemory ⟨_, hin⟩ := dif_pos hin
  rw [hbyte, h.memory, overlay_of_lt _ _ _ hlow, overlay_apply, if_pos (Nat.le_add_right _ _)]
  show some ((image[Boot.KERNEL_BASE.toNat + i - Boot.KERNEL_BASE.toNat]?).getD _) = _
  rw [Nat.add_sub_cancel_left, List.getElem?_eq_getElem hi]
  rfl

/-- An image that fits its region is there as it was loaded. -/
theorem intact_of_le {k : Kernel} (h : Laid k image)
    (hlen : image.length ≤ Boot.KERNEL_CODE_SIZE.toNat) : ImageIntact k image := by
  have hsize : Boot.KERNEL_CODE_SIZE.toNat = 0x400000 := rfl
  have hbase : Boot.KERNEL_BASE.toNat = 0x80000 := rfl
  have hmenu : Boot.QLAUNCH_BASE.toNat = 0x1000000 := rfl
  obtain ⟨p, hp, hregions⟩ := h.kernel
  refine ⟨?_, ?_, ?_⟩
  · intro i hi
    exact h.byteAt hi (by omega)
  · refine ⟨p, ⟨0x80000, 0x400000, .RX, .codeStatic⟩, hp, ?_, rfl, ?_⟩
    · rw [hregions]
      exact List.mem_cons_self
    · rintro a ⟨hlow, hhigh⟩
      show 0x80000 ≤ a ∧ a < 0x80000 + 0x400000
      omega
  · rintro region ⟨pid, q, hq, hmem, hother⟩
    rw [Set.disjoint_left]
    rintro a ⟨hlow, hhigh⟩ hin
    rcases h.region hq with ⟨rfl, hmap⟩ | ⟨-, hmap⟩
    · rw [hmap] at hmem
      rcases List.mem_cons.mp hmem with rfl | hmem
      · exact hother ⟨rfl, rfl⟩
      · obtain rfl := List.mem_singleton.mp hmem
        have hin : 0x480000 ≤ a ∧ _ := hin
        omega
    · rw [hmap] at hmem
      rcases List.mem_cons.mp hmem with rfl | hmem
      · have hin : 0x1000000 ≤ a ∧ _ := hin
        omega
      · obtain rfl := List.mem_singleton.mp hmem
        have hin : 0x1800000 ≤ a ∧ _ := hin
        omega

/-- A longer image leaves the kernel's code region. -/
theorem le_of_intact {k : Kernel} (h : Laid k image) (hintact : ImageIntact k image) :
    image.length ≤ Boot.KERNEL_CODE_SIZE.toNat := by
  have hsize : Boot.KERNEL_CODE_SIZE.toNat = 0x400000 := rfl
  have hbase : Boot.KERNEL_BASE.toNat = 0x80000 := rfl
  obtain ⟨p, region, hp, hmem, hstate, hsub⟩ := hintact.inside
  by_contra hlong
  have hout : Boot.KERNEL_BASE.toNat + 0x400000 ∈
      addressRange Boot.KERNEL_BASE.toNat image.length := ⟨by omega, by omega⟩
  have hin := hsub hout
  rcases h.region hp with ⟨-, hmap⟩ | ⟨hone, -⟩
  · rw [hmap] at hmem
    rcases List.mem_cons.mp hmem with rfl | hmem
    · have hin : _ ∧ Boot.KERNEL_BASE.toNat + 0x400000 < 0x80000 + 0x400000 := hin
      omega
    · obtain rfl := List.mem_singleton.mp hmem
      cases hstate
  · exact absurd hone (by simp)

end Memory

/-- **The image is intact exactly when it fits into the kernel's code region.**
SOURCE: core/src/sys/boot.rs:61-74, core/src/sys/boot.rs:109-200 -/
theorem image_intact_iff (b : Build) (emu : Emulator) (host : Boot.Host)
    (config : Boot.FirmwareConfig) (image : List UInt8)
    (h : Boot.loadKernelImage b host config = .ok image)
    (hram : Boot.KERNEL_BASE.toNat + image.length ≤ MEMORY_SIZE) :
    ∃ k, Boot.loadAndStart b emu host config = .ok (image, k) ∧
      (ImageIntact k image ↔ image.length ≤ Boot.KERNEL_CODE_SIZE.toNat) := by
  have hmemory : MEMORY_SIZE ≤ 2 ^ 64 := by norm_num
  obtain ⟨ports, -, hload⟩ := loadAndStart_eq b emu (kernelImage_of_ok h) (hram.trans hmemory)
  have hlaid : Laid _ image := laid_booted ports
  exact ⟨_, hload, le_of_intact hlaid, intact_of_le hlaid⟩

/-- A host with a kernel image in a file of its own. -/
def imageHost (image : List UInt8) : Boot.Host where
  readFile := fun _ => .ok image
  exists_ := fun _ => false
  openFile := fun _ => .error (.io ⟨.notFound, "no such file"⟩)
  servicesReturn := true

/-- An image of one instruction. -/
theorem image_intact_iff_stub :
    ∃ k, Boot.loadAndStart .debug stuckEmulator (imageHost Boot.stubKernel)
        ⟨"nand.img", some "package2"⟩ = .ok (Boot.stubKernel, k) ∧
      ImageIntact k Boot.stubKernel := by
  obtain ⟨k, hk, hiff⟩ := image_intact_iff .debug stuckEmulator (imageHost Boot.stubKernel)
    ⟨"nand.img", some "package2"⟩ Boot.stubKernel rfl (show 0x80000 + 4 ≤ MEMORY_SIZE by norm_num)
  exact ⟨k, hk, hiff.mpr (show 4 ≤ 0x400000 by norm_num)⟩

/-- An image one byte longer than the code region. -/
def longImage : List UInt8 := List.replicate 0x400001 0

/-- The image is one byte longer than its region. -/
theorem longImage_length : longImage.length = 0x400001 := List.length_replicate

/-- It reaches into the kernel's stack. -/
theorem long_image_leaves_its_region :
    ∃ k, Boot.loadAndStart .debug stuckEmulator (imageHost longImage)
        ⟨"nand.img", some "package2"⟩ = .ok (longImage, k) ∧ ¬ ImageIntact k longImage := by
  have hfits : Boot.KERNEL_BASE.toNat + longImage.length ≤ 2 ^ 64 := by
    rw [longImage_length]
    show 0x80000 + 0x400001 ≤ 2 ^ 64
    norm_num
  have himage : Boot.kernelImage .debug (imageHost longImage) ⟨"nand.img", some "package2"⟩ =
      .ok longImage := rfl
  obtain ⟨ports, -, hload⟩ := loadAndStart_eq .debug stuckEmulator himage hfits
  refine ⟨_, hload, fun hintact => ?_⟩
  have hlen := le_of_intact (laid_booted ports) hintact
  have hsize : Boot.KERNEL_CODE_SIZE.toNat = 0x400000 := rfl
  rw [longImage_length, hsize] at hlen
  omega

end Oboromi.Analysis

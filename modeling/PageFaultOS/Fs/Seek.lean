import Mathlib.Tactic
import PageFaultOS.Fs.Volume

/-! Seeking and reading along a chain of clusters. A file that sits on a chain is where its
position says, a seek to a position of the chain puts it there, and `tf_fread` reads the
bytes from its position on. None of this changes the volume. -/

namespace PageFaultOS
open Exec Exec.Comp ByteMem

/-- The clusters `cs` are linked one to the next in the FAT. -/
structure FatChain (shape : TFShape) (v : Mem) (cs : List Nat) : Prop where
  next : ∀ i, i + 1 < cs.length → fatEntry shape v (cs.getD i 0) = cs.getD (i + 1) 0
  below : ∀ i, i + 1 < cs.length → cs.getD (i + 1) 0 < tfMarkEoc32

/-- Bytes that a chain has room for. -/
def chainBytes (shape : TFShape) (cs : List Nat) : Nat := cs.length * clusterBytes shape

/-- A cluster has a sector and at most 32 KiB. -/
structure TFShape.Valid (shape : TFShape) : Prop where
  pos : 0 < shape.sectorsPerCluster
  small : shape.sectorsPerCluster ≤ 64

/-- The file `f`, moved to position `p` of the chain. -/
def moveTo (shape : TFShape) (cs : List Nat) (p : Nat) (f : TFFile) : TFFile :=
  { f with
    currentClusterIdx := p / clusterBytes shape
    currentCluster := cs.getD (p / clusterBytes shape) 0
    currentByte := (p % clusterBytes shape : Nat)
    pos := p }

/-- The file `f` sits on the chain. -/
structure OnChain (shape : TFShape) (cs : List Nat) (f : TFFile) : Prop where
  start : f.startCluster = cs.getD 0 0
  here : moveTo shape cs f.pos f = f

/-- The cluster of the file `f` is the one of its index on the chain. -/
structure AtCluster (cs : List Nat) (f : TFFile) : Prop where
  start : f.startCluster = cs.getD 0 0
  cluster : f.currentCluster = cs.getD f.currentClusterIdx 0

theorem OnChain.atCluster {shape : TFShape} {cs : List Nat} {f : TFFile}
    (h : OnChain shape cs f) : AtCluster cs f := by
  refine ⟨h.start, ?_⟩
  rw [← h.here]
  rfl

/-- A file that is at one of the clusters is on the chain when it has moved. -/
theorem AtCluster.moveTo {cs : List Nat} {f : TFFile} (h : AtCluster cs f) (shape : TFShape)
    (p : Nat) : OnChain shape cs (moveTo shape cs p f) := ⟨h.start, rfl⟩

theorem OnChain.moveTo {shape : TFShape} {cs : List Nat} {f : TFFile} (h : OnChain shape cs f)
    (p : Nat) : OnChain shape cs (moveTo shape cs p f) := ⟨h.start, rfl⟩

variable {shape : TFShape} {cs : List Nat} {s : Fat32} {fp : Nat} {f : TFFile}

theorem TFShape.Valid.clusterBytes_pos (h : shape.Valid) : 0 < clusterBytes shape := by
  have := h.pos
  rw [clusterBytes]
  omega

theorem TFShape.Valid.clusterBytes_le (h : shape.Valid) : clusterBytes shape ≤ 32768 := by
  have := h.small
  rw [clusterBytes]
  omega

theorem FatChain.same {s s' : Fat32} (h : FatChain s.info.shape s.volume cs) (hsame : Same s s') :
    FatChain s'.info.shape s'.volume cs := by
  rw [hsame.shape, hsame.volume]
  exact h

/-! ## Seeking -/

/-- One link. -/
theorem nextCluster_run (hco : s.Coherent) (hchain : FatChain s.info.shape s.volume cs)
    {k : Nat} (hcur : (s.handles fp).currentCluster = cs.getD k 0) (hk : k + 1 < cs.length) :
    ∃ s', nextCluster fp s = .ok () s' ∧
      Moved s s' fp { s.handles fp with currentCluster := cs.getD (k + 1) 0 } := by
  obtain ⟨t, hrun, hsame, hhandles⟩ := tfGetFatEntry_run hco (cs.getD k 0)
  rw [hchain.next k hk] at hrun
  have hbelow := hchain.below k hk
  have hmask : cs.getD (k + 1) 0 &&& 0x0fffffff ≠ tfMarkEoc32 := by
    have hle : cs.getD (k + 1) 0 &&& 0x0fffffff ≤ cs.getD (k + 1) 0 := Nat.and_le_left
    omega
  have hmoved := Moved.of_same fp hsame hhandles
  refine ⟨_, ?_, hmoved.trans (Moved.setFile fp _ hsame.coherent)⟩
  unfold nextCluster
  rw [bind_ok (getFile_run s fp), hcur, bind_ok hrun, if_pos hmask, modifyFile_run, hmoved.file]

/-- The loop of `tf_unsafe_fseek`. -/
theorem seek_loop_run (fuel n : Nat) {k : Nat} (hco : s.Coherent)
    (hchain : FatChain s.info.shape s.volume cs)
    (hcur : (s.handles fp).currentCluster = cs.getD k 0) (hk : k + n < cs.length)
    (hfuel : n < fuel) :
    ∃ s', loop (seekRound fp) fuel n s = .ok 0 s' ∧
      Moved s s' fp { s.handles fp with currentCluster := cs.getD (k + n) 0 } := by
  induction n generalizing s k fuel with
  | zero =>
    obtain ⟨fuel, rfl⟩ := Nat.exists_eq_succ_of_ne_zero (Nat.ne_of_gt hfuel)
    refine ⟨s, loop_done rfl fuel, ?_⟩
    rw [Nat.add_zero, ← hcur]
    exact Moved.refl fp hco
  | succ n ih =>
    obtain ⟨fuel, rfl⟩ := Nat.exists_eq_succ_of_ne_zero (Nat.ne_zero_of_lt hfuel)
    obtain ⟨t, hrun, hmoved⟩ := nextCluster_run hco hchain hcur (by omega)
    have hbelow := hchain.below k (by omega)
    have hnot : ¬ (tfMarkEoc32 ≤ cs.getD (k + 1) 0 ∧ 0 < n + 1 - 1) := fun h =>
      absurd hbelow (Nat.not_lt.mpr h.1)
    have hround : seekRound fp (n + 1) s = .ok (.inl n) t := by
      unfold seekRound
      rw [if_neg (by omega), bind_ok hrun, bind_ok (getFile_run t fp), hmoved.file]
      simp only [hnot, if_false]
      rfl
    obtain ⟨s', hloop, hmoved'⟩ := ih fuel (s := t) (k := k + 1) hmoved.coherent
      (hchain.same hmoved.same) (by rw [hmoved.file]) (by omega) (by omega)
    refine ⟨s', (loop_again hround fuel).trans hloop, ?_⟩
    rw [hmoved.file, Nat.add_right_comm, Nat.add_assoc] at hmoved'
    exact hmoved.trans hmoved'

theorem seekCluster_run (hco : s.Coherent) (hchain : FatChain s.info.shape s.volume cs)
    (hat : AtCluster cs (s.handles fp)) {j : Nat} (hj : j < cs.length) (hj32 : j < 2 ^ 32) :
    ∃ s', seekCluster fp j s = .ok 0 s' ∧ Moved s s' fp
      { s.handles fp with currentClusterIdx := j, currentCluster := cs.getD j 0 } := by
  have hcluster := hat.cluster
  unfold seekCluster
  rw [bind_ok (getFile_run s fp)]
  by_cases heq : j = (s.handles fp).currentClusterIdx
  · refine ⟨s, ?_, ?_⟩
    · rw [if_pos heq]
      rfl
    · rw [heq, ← hcluster]
      exact Moved.refl fp hco
  · rw [if_neg heq]
    by_cases hlt : (s.handles fp).currentClusterIdx < j
    · rw [if_pos hlt, bind_ok (modifyFile_run s fp _)]
      have hset := Moved.setFile fp { s.handles fp with currentClusterIdx := j } hco
      obtain ⟨s', hloop, hmoved⟩ := seek_loop_run fileRounds
        (j - (s.handles fp).currentClusterIdx) hset.coherent (hchain.same hset.same)
        (by rw [hset.file]; exact hcluster) (by omega) (by simp only [fileRounds]; omega)
      rw [hset.file, Nat.add_sub_cancel' (Nat.le_of_lt hlt)] at hmoved
      exact ⟨s', hloop, hset.trans hmoved⟩
    · rw [if_neg hlt, bind_ok (modifyFile_run s fp _)]
      have hset := Moved.setFile fp { s.handles fp with
        currentCluster := (s.handles fp).startCluster, currentClusterIdx := j } hco
      obtain ⟨s', hloop, hmoved⟩ := seek_loop_run fileRounds j
        hset.coherent (hchain.same hset.same) (k := 0) (by rw [hset.file]; exact hat.start)
        (by omega) (by simp only [fileRounds]; omega)
      rw [hset.file, Nat.zero_add] at hmoved
      exact ⟨s', hloop, hset.trans hmoved⟩

theorem u32OfInt_natCast {n : Nat} (h : n < 2 ^ 32) : u32OfInt n = n := by
  rw [u32OfInt]
  omega

theorem toShort_natCast {n : Nat} (h : n < 2 ^ 15) : toShort n = n := by
  rw [toShort, Int.bmod_def]
  omega

theorem toInt_small {z : Int} (h1 : -2 ^ 31 ≤ z) (h2 : z < 2 ^ 31) : toInt z = z := by
  rw [toInt, Int.bmod_def]
  omega

theorem toLong_small {z : Int} (h1 : -2 ^ 63 ≤ z) (h2 : z < 2 ^ 63) : toLong z = z := by
  rw [toLong, Int.bmod_def]
  omega

@[simp] theorem toLong_zero : toLong 0 = 0 := toLong_small (by decide) (by decide)

theorem toLong_natCast {n : Nat} (h : n < 2 ^ 63) : toLong n = n :=
  toLong_small (by omega) (by omega)

/-- A seek to a position before the end of the file and of its chain. -/
theorem tfUnsafeFseek_run (hvalid : s.info.shape.Valid) (hco : s.Coherent)
    (hchain : FatChain s.info.shape s.volume cs) (hat : AtCluster cs (s.handles fp))
    {q : Nat} {base offset : Int} (hq : toLong (base + offset) = q)
    (hsize : q < (s.handles fp).size) (hsize32 : (s.handles fp).size < 2 ^ 32)
    (hroom : q < chainBytes s.info.shape cs) :
    ∃ s', tfUnsafeFseek fp base offset s = .ok 0 s' ∧
      Moved s s' fp (moveTo s.info.shape cs q (s.handles fp)) := by
  have hpos := hvalid.clusterBytes_pos
  have hle := hvalid.clusterBytes_le
  have hidx : q / clusterBytes s.info.shape < cs.length := by
    rw [Nat.div_lt_iff_lt_mul hpos]
    exact hroom
  have hidx32 : q / clusterBytes s.info.shape < 2 ^ 32 :=
    Nat.lt_of_le_of_lt (Nat.div_le_self _ _) (by omega)
  have hmod : q % clusterBytes s.info.shape < 2 ^ 15 :=
    Nat.lt_of_lt_of_le (Nat.mod_lt _ hpos) (by omega)
  obtain ⟨t, hrun, hmoved⟩ := seekCluster_run hco hchain hat hidx hidx32
  have hgrow : growAtEnd fp q s = .ok () s := by
    unfold growAtEnd
    rw [bind_ok (getFile_run s fp), if_neg (by omega)]
    rfl
  refine ⟨_, ?_, hmoved.trans (Moved.setFile fp _ hmoved.coherent)⟩
  unfold tfUnsafeFseek
  simp only [hq]
  rw [bind_ok (getFile_run s fp), if_neg (by omega), bind_ok hgrow, read_bind,
    ← Int.ofNat_tdiv, u32OfInt_natCast hidx32, bind_ok hrun, if_neg (by decide),
    bind_ok (modifyFile_run t fp _), hmoved.file, ← Int.ofNat_tmod, toShort_natCast hmod,
    u32OfInt_natCast (by omega)]
  rfl

/-- `tf_fseek` hands the position on, where the `base` that `tf_unsafe_fseek` gets gives the same
one. -/
theorem tfFseek_goes (hvalid : s.info.shape.Valid) (hco : s.Coherent)
    (hchain : FatChain s.info.shape s.volume cs) (hat : AtCluster cs (s.handles fp))
    {q : Nat} {base offset : Int} (hq : toLong (base + offset) = q)
    (hq' : toLong (toInt base + offset) = q) (hsize : q < (s.handles fp).size)
    (hsize32 : (s.handles fp).size < 2 ^ 32) (hroom : q < chainBytes s.info.shape cs) :
    ∃ s', tfFseek fp base offset s = .ok 0 s' ∧
      Moved s s' fp (moveTo s.info.shape cs q (s.handles fp)) := by
  obtain ⟨s', hrun, hmoved⟩ := tfUnsafeFseek_run hvalid hco hchain hat hq' hsize hsize32 hroom
  refine ⟨s', ?_, hmoved⟩
  unfold tfFseek
  simp only [hq]
  rw [bind_ok (getFile_run s fp), if_neg (by omega), hrun]

theorem tfFseek_run (base offset : Int) (hvalid : s.info.shape.Valid) (hco : s.Coherent)
    (hchain : FatChain s.info.shape s.volume cs) (hon : OnChain s.info.shape cs (s.handles fp))
    {q : Nat} (hq : base + offset = q) (hsize : q < (s.handles fp).size)
    (hsize32 : (s.handles fp).size < 2 ^ 32) (hroom : q < chainBytes s.info.shape cs)
    (hbase : -2 ^ 31 ≤ base ∧ base < 2 ^ 31) :
    ∃ s', tfFseek fp base offset s = .ok 0 s' ∧
      Moved s s' fp (moveTo s.info.shape cs q (s.handles fp)) := by
  have hlong : toLong (base + offset) = q := by
    rw [hq, toLong_natCast (by omega)]
  refine tfFseek_goes hvalid hco hchain hon.atCluster hlong ?_ hsize hsize32 hroom
  rw [toInt_small hbase.1 hbase.2, hlong]

/-- A seek to the end of the file or behind it does nothing. -/
theorem tfFseek_end {base offset : Int}
    (h : ((s.handles fp).size : Int) ≤ toLong (base + offset)) :
    tfFseek fp base offset s = .ok tfErrInvalidSeek s := by
  unfold tfFseek
  rw [bind_ok (getFile_run s fp), if_pos h]
  rfl

theorem tfFseek_behind {n : Nat} (h : (s.handles fp).size ≤ n) (hn : n < 2 ^ 63) :
    tfFseek fp 0 n s = .ok tfErrInvalidSeek s := by
  apply tfFseek_end
  rw [Int.zero_add, toLong_natCast hn]
  omega

/-! ## Reading -/

/-- Byte `p` of the file on the chain. -/
def fileByte (shape : TFShape) (v : Mem) (cs : List Nat) (p : Nat) : UInt8 :=
  v (u32 (tfFirstSector shape (cs.getD (p / clusterBytes shape) 0) +
    p % clusterBytes shape / 512) * 512 + p % 512)

/-- The `n` bytes from `p`. -/
def fileBytes (shape : TFShape) (v : Mem) (cs : List Nat) (p n : Nat) : List UInt8 :=
  (List.range n).map fun i => fileByte shape v cs (p + i)

@[simp] theorem fileBytes_length (shape : TFShape) (v : Mem) (cs : List Nat) (p n : Nat) :
    (fileBytes shape v cs p n).length = n := by
  simp [fileBytes]

theorem fileBytes_append (shape : TFShape) (v : Mem) (cs : List Nat) (p n k : Nat) :
    fileBytes shape v cs p n ++ fileBytes shape v cs (p + n) k =
      fileBytes shape v cs p (n + k) := by
  simp only [fileBytes, List.range_add, List.map_append, List.map_map, Function.comp_def,
    Nat.add_assoc]

/-- A cluster consists of sectors. -/
theorem div_clusterBytes (shape : TFShape) (p : Nat) :
    p / clusterBytes shape = p / 512 / shape.sectorsPerCluster := by
  rw [clusterBytes, Nat.div_div_eq_div_mul, Nat.mul_comm]

theorem mod_clusterBytes (shape : TFShape) (p : Nat) :
    p % clusterBytes shape = p / 512 % shape.sectorsPerCluster * 512 + p % 512 := by
  rw [clusterBytes, Nat.mul_comm, Nat.mod_mul, Nat.add_comm, Nat.mul_comm]

/-- The bytes up to the end of the sector are in one sector. -/
theorem fileByte_sector (shape : TFShape) (v : Mem) (cs : List Nat) {p i : Nat}
    (hi : i < 512 - p % 512) : fileByte shape v cs (p + i) =
      v (u32 (tfFirstSector shape (cs.getD (p / clusterBytes shape) 0) +
        p % clusterBytes shape / 512) * 512 + (p % 512 + i)) := by
  have hdiv : (p + i) / 512 = p / 512 := by omega
  have hmod : (p + i) % 512 = p % 512 + i := by omega
  have hsec : ∀ a b : Nat, b < 512 → (a * 512 + b) / 512 = a := by
    intro a b hb
    omega
  rw [fileByte, div_clusterBytes, div_clusterBytes, mod_clusterBytes, mod_clusterBytes,
    hsec _ _ (Nat.mod_lt _ (by decide)), hsec _ _ (Nat.mod_lt _ (by decide)), hdiv, hmod]

/-- A position from which `n` bytes may be read: the chain goes on behind them, or to the
end of the file. -/
structure Readable (shape : TFShape) (cs : List Nat) (f : TFFile) (n : Nat) : Prop where
  on : OnChain shape cs f
  pos : f.pos ≤ f.size
  size : f.size < 2 ^ 32
  room : f.pos + n < chainBytes shape cs ∨ f.size ≤ chainBytes shape cs

theorem Readable.byte {n : Nat} (h : Readable shape cs f n) :
    f.currentByte = (f.pos % clusterBytes shape : Nat) := by
  rw [← h.on.here]
  rfl

theorem Readable.cluster {n : Nat} (h : Readable shape cs f n) :
    f.currentCluster = cs.getD (f.pos / clusterBytes shape) 0 := by
  rw [← h.on.here]
  rfl

theorem Readable.chunk {n : Nat} (h : Readable shape cs f n) :
    chunk f n = min (min (512 - f.pos % 512) (f.size - f.pos)) n := by
  have hpos := h.pos
  have hsize := h.size
  have hb : (512 - f.currentByte.tmod 512).toNat = 512 - f.pos % 512 := by
    have hcast : ((512 : Nat) : Int) = 512 := rfl
    rw [h.byte, ← hcast, ← Int.ofNat_tmod, mod_clusterBytes]
    omega
  have hleft : u32 (f.size + (2 ^ 32 - f.pos)) = f.size - f.pos := by
    rw [u32]
    omega
  rw [PageFaultOS.chunk, hb, hleft]

/-- The bytes of a round come from the sector of the position. -/
theorem Readable.load {n x : Nat} (h : Readable shape cs f n) {v buffer : Mem}
    (hbuffer : ∀ i < 512, buffer i = v (fileSector shape f * 512 + i))
    (hx : x ≤ 512 - f.pos % 512) :
    load buffer (f.currentByte % 512).toNat x = fileBytes shape v cs f.pos x := by
  have hcb := mod_clusterBytes shape f.pos
  have hmod : (f.currentByte % 512).toNat = f.pos % 512 := by
    rw [h.byte]
    omega
  have hsec : fileSector shape f = u32 (tfFirstSector shape
      (cs.getD (f.pos / clusterBytes shape) 0) + f.pos % clusterBytes shape / 512) := by
    have hdiv : u32OfInt (f.currentByte.tdiv 512) = f.pos % clusterBytes shape / 512 % 2 ^ 32 := by
      have hcast : ((512 : Nat) : Int) = 512 := rfl
      rw [h.byte, ← hcast, ← Int.ofNat_tdiv, u32OfInt]
      omega
    rw [fileSector, hdiv, h.cluster, u32, u32, Nat.add_mod_mod]
  rw [hmod, ByteMem.load, fileBytes]
  apply List.map_congr_left
  intro i hi
  have hi' := List.mem_range.mp hi
  rw [hbuffer _ (by omega), hsec, fileByte_sector shape v cs (by omega)]

/-- A round of `tf_fread` before the end of the file and one at its end. -/
theorem freadRound_run {n : Nat} (hvalid : s.info.shape.Valid) (hco : s.Coherent)
    (hchain : FatChain s.info.shape s.volume cs) (hn : 0 < n)
    (hread : Readable s.info.shape cs (s.handles fp) n) (dest : List UInt8) {x : Nat}
    (hx : x = chunk (s.handles fp) n) :
    ∃ s', if (s.handles fp).pos + x < (s.handles fp).size then
        freadRound fp (n, dest) s = .ok (.inl (n - x,
          dest ++ fileBytes s.info.shape s.volume cs (s.handles fp).pos x)) s' ∧
        Moved s s' fp (moveTo s.info.shape cs ((s.handles fp).pos + x) (s.handles fp))
      else
        freadRound fp (n, dest) s = .ok (.inr
          (dest ++ fileBytes s.info.shape s.volume cs (s.handles fp).pos x)) s' ∧
        Moved s s' fp (s.handles fp) := by
  have hchunk := hread.chunk
  obtain ⟨t, hfetch, hsame, hhandles, hbuffer⟩ :=
    tfFetch_run hco (fileSector s.info.shape (s.handles fp))
  have hmoved := Moved.of_same fp hsame hhandles
  have hload : load t.info.buffer ((s.handles fp).currentByte % 512).toNat x =
      fileBytes s.info.shape s.volume cs (s.handles fp).pos x := hread.load hbuffer (by omega)
  have hbyte : ¬ (s.handles fp).currentByte < 0 := by
    rw [hread.byte]
    omega
  have hround : freadRound fp (n, dest) s = (tfFseek fp 0 ((s.handles fp).pos + x : Nat) >>=
      fun r => if r ≠ 0 then
        pure (.inr (dest ++ fileBytes s.info.shape s.volume cs (s.handles fp).pos x))
      else pure (.inl (n - x,
        dest ++ fileBytes s.info.shape s.volume cs (s.handles fp).pos x))) t := by
    simp only [freadRound, hn, not_true_eq_false, if_false]
    rw [bind_ok (getFile_run s fp), read_bind, bind_ok hfetch, if_neg hbyte, read_bind, ← hx,
      hload]
  by_cases hend : (s.handles fp).pos + x < (s.handles fp).size
  · have hfile := hmoved.file
    have hroom : (s.handles fp).pos + x < chainBytes t.info.shape cs := by
      rw [hsame.shape]
      rcases hread.room with h | h <;> omega
    have hon : OnChain t.info.shape cs (t.handles fp) := by
      rw [hfile, hsame.shape]
      exact hread.on
    have hsize := hread.size
    obtain ⟨u, hseek, hmoved'⟩ := tfFseek_run 0 ((s.handles fp).pos + x : Nat)
      (q := (s.handles fp).pos + x) (by rw [hsame.shape]; exact hvalid)
      hsame.coherent (hchain.same hsame) hon (Int.zero_add _) (by rw [hfile]; exact hend)
      (by rw [hfile]; exact hsize) hroom (by decide)
    refine ⟨u, ?_⟩
    rw [if_pos hend, hround, bind_ok hseek]
    rw [hfile, hsame.shape] at hmoved'
    exact ⟨rfl, hmoved.trans hmoved'⟩
  · refine ⟨t, ?_⟩
    have hpos := hread.pos
    have hsize := hread.size
    have hseek : tfFseek fp 0 ((s.handles fp).pos + x : Nat) t = .ok tfErrInvalidSeek t := by
      apply tfFseek_behind
      · rw [hmoved.file]
        omega
      · omega
    rw [if_neg hend, hround, bind_ok hseek]
    exact ⟨rfl, hmoved⟩

/-- `tf_fread` reads the `n` bytes from the position of the file on, or those to its end. -/
theorem fread_loop_run (fuel : Nat) {n : Nat} (hfuel : n < fuel)
    (hvalid : s.info.shape.Valid) (hco : s.Coherent)
    (hchain : FatChain s.info.shape s.volume cs)
    (hread : Readable s.info.shape cs (s.handles fp) n) (dest : List UInt8) :
    ∃ s' q, loop (freadRound fp) fuel (n, dest) s = .ok (dest ++ fileBytes s.info.shape s.volume cs
        (s.handles fp).pos (min n ((s.handles fp).size - (s.handles fp).pos))) s' ∧
      Moved s s' fp (moveTo s.info.shape cs q (s.handles fp)) ∧
      ((s.handles fp).pos + n < (s.handles fp).size → q = (s.handles fp).pos + n) := by
  induction fuel generalizing s n dest with
  | zero => omega
  | succ fuel ih =>
    have hpos := hread.pos
    have hchunk := hread.chunk
    by_cases hn : n = 0
    · refine ⟨s, (s.handles fp).pos, ?_, ?_, fun _ => ?_⟩
      · subst hn
        rw [loop_done rfl, Nat.zero_min, fileBytes]
        simp
      · rw [hread.on.here]
        exact Moved.refl fp hco
      · omega
    · obtain ⟨t, ht⟩ := freadRound_run hvalid hco hchain (Nat.pos_of_ne_zero hn) hread dest rfl
      by_cases hend : (s.handles fp).pos + chunk (s.handles fp) n < (s.handles fp).size
      · rw [if_pos hend] at ht
        obtain ⟨hround, hmoved⟩ := ht
        have hfile := hmoved.file
        have hread' : Readable t.info.shape cs (t.handles fp) (n - chunk (s.handles fp) n) := by
          rw [hfile, hmoved.same.shape]
          refine ⟨hread.on.moveTo _, Nat.le_of_lt hend, hread.size, ?_⟩
          rcases hread.room with h | h
          · refine Or.inl ?_
            have : (moveTo s.info.shape cs ((s.handles fp).pos + chunk (s.handles fp) n)
              (s.handles fp)).pos = (s.handles fp).pos + chunk (s.handles fp) n := rfl
            omega
          · exact Or.inr h
        obtain ⟨u, q, hloop, hmoved', hq⟩ := ih (s := t) (n := n - chunk (s.handles fp) n)
          (by omega) (by rw [hmoved.same.shape]; exact hvalid) hmoved.coherent
          (hchain.same hmoved.same) hread'
          (dest ++ fileBytes s.info.shape s.volume cs (s.handles fp).pos (chunk (s.handles fp) n))
        rw [hfile, hmoved.same.shape] at hmoved'
        rw [hfile, hmoved.same.shape, hmoved.same.volume] at hloop
        rw [hfile] at hq
        refine ⟨u, q, ?_, hmoved.trans hmoved', fun h => ?_⟩
        · rw [loop_again hround, hloop, List.append_assoc]
          simp only [moveTo]
          rw [fileBytes_append]
          congr 3
          omega
        · have hq' := hq (by simp only [moveTo]; omega)
          simp only [moveTo] at hq'
          omega
      · rw [if_neg hend] at ht
        obtain ⟨hround, hmoved⟩ := ht
        refine ⟨t, (s.handles fp).pos, ?_, ?_, fun h => ?_⟩
        · have hmin : min n ((s.handles fp).size - (s.handles fp).pos) =
              chunk (s.handles fp) n := by omega
          rw [loop_done hround, hmin]
        · rw [hread.on.here]
          exact hmoved
        · omega

theorem tfFread_run {n : Nat} (hn : n < 2 ^ 32) (hvalid : s.info.shape.Valid) (hco : s.Coherent)
    (hchain : FatChain s.info.shape s.volume cs)
    (hread : Readable s.info.shape cs (s.handles fp) n) :
    ∃ s' q, tfFread n fp s = .ok (fileBytes s.info.shape s.volume cs
        (s.handles fp).pos (min n ((s.handles fp).size - (s.handles fp).pos))) s' ∧
      Moved s s' fp (moveTo s.info.shape cs q (s.handles fp)) ∧
      ((s.handles fp).pos + n < (s.handles fp).size → q = (s.handles fp).pos + n) :=
  fread_loop_run fileRounds (by simp only [fileRounds]; omega) hvalid hco hchain hread []

end PageFaultOS

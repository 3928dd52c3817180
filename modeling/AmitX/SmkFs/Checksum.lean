import AmitX.Lib.Crc
import AmitX.SmkFs.RedoBytes
/-!
# Checksum — the checksum of every structure (`checksum.c`)

The table of `checksum.c` word by word.  Taking in a byte with it is eight steps of the division by the polynomial, so
the checksum is the CRC32C of the bytes, and a sealed structure in which one bit is turned over is refused.
-/
namespace AmitX
namespace SmkFs
namespace Checksum

open Bytes

def crc32cTable : List (BitVec 32) := [
  0x00000000, 0xF26B8303, 0xE13B70F7, 0x1350F3F4, 0xC79A971F, 0x35F1141C, 0x26A1E7E8, 0xD4CA64EB,
  0x8AD958CF, 0x78B2DBCC, 0x6BE22838, 0x9989AB3B, 0x4D43CFD0, 0xBF284CD3, 0xAC78BF27, 0x5E133C24,
  0x105EC76F, 0xE235446C, 0xF165B798, 0x030E349B, 0xD7C45070, 0x25AFD373, 0x36FF2087, 0xC494A384,
  0x9A879FA0, 0x68EC1CA3, 0x7BBCEF57, 0x89D76C54, 0x5D1D08BF, 0xAF768BBC, 0xBC267848, 0x4E4DFB4B,
  0x20BD8EDE, 0xD2D60DDD, 0xC186FE29, 0x33ED7D2A, 0xE72719C1, 0x154C9AC2, 0x061C6936, 0xF477EA35,
  0xAA64D611, 0x580F5512, 0x4B5FA6E6, 0xB93425E5, 0x6DFE410E, 0x9F95C20D, 0x8CC531F9, 0x7EAEB2FA,
  0x30E349B1, 0xC288CAB2, 0xD1D83946, 0x23B3BA45, 0xF779DEAE, 0x05125DAD, 0x1642AE59, 0xE4292D5A,
  0xBA3A117E, 0x4851927D, 0x5B016189, 0xA96AE28A, 0x7DA08661, 0x8FCB0562, 0x9C9BF696, 0x6EF07595,
  0x417B1DBC, 0xB3109EBF, 0xA0406D4B, 0x522BEE48, 0x86E18AA3, 0x748A09A0, 0x67DAFA54, 0x95B17957,
  0xCBA24573, 0x39C9C670, 0x2A993584, 0xD8F2B687, 0x0C38D26C, 0xFE53516F, 0xED03A29B, 0x1F682198,
  0x5125DAD3, 0xA34E59D0, 0xB01EAA24, 0x42752927, 0x96BF4DCC, 0x64D4CECF, 0x77843D3B, 0x85EFBE38,
  0xDBFC821C, 0x2997011F, 0x3AC7F2EB, 0xC8AC71E8, 0x1C661503, 0xEE0D9600, 0xFD5D65F4, 0x0F36E6F7,
  0x61C69362, 0x93AD1061, 0x80FDE395, 0x72966096, 0xA65C047D, 0x5437877E, 0x4767748A, 0xB50CF789,
  0xEB1FCBAD, 0x197448AE, 0x0A24BB5A, 0xF84F3859, 0x2C855CB2, 0xDEEEDFB1, 0xCDBE2C45, 0x3FD5AF46,
  0x7198540D, 0x83F3D70E, 0x90A324FA, 0x62C8A7F9, 0xB602C312, 0x44694011, 0x5739B3E5, 0xA55230E6,
  0xFB410CC2, 0x092A8FC1, 0x1A7A7C35, 0xE811FF36, 0x3CDB9BDD, 0xCEB018DE, 0xDDE0EB2A, 0x2F8B6829,
  0x82F63B78, 0x709DB87B, 0x63CD4B8F, 0x91A6C88C, 0x456CAC67, 0xB7072F64, 0xA457DC90, 0x563C5F93,
  0x082F63B7, 0xFA44E0B4, 0xE9141340, 0x1B7F9043, 0xCFB5F4A8, 0x3DDE77AB, 0x2E8E845F, 0xDCE5075C,
  0x92A8FC17, 0x60C37F14, 0x73938CE0, 0x81F80FE3, 0x55326B08, 0xA759E80B, 0xB4091BFF, 0x466298FC,
  0x1871A4D8, 0xEA1A27DB, 0xF94AD42F, 0x0B21572C, 0xDFEB33C7, 0x2D80B0C4, 0x3ED04330, 0xCCBBC033,
  0xA24BB5A6, 0x502036A5, 0x4370C551, 0xB11B4652, 0x65D122B9, 0x97BAA1BA, 0x84EA524E, 0x7681D14D,
  0x2892ED69, 0xDAF96E6A, 0xC9A99D9E, 0x3BC21E9D, 0xEF087A76, 0x1D63F975, 0x0E330A81, 0xFC588982,
  0xB21572C9, 0x407EF1CA, 0x532E023E, 0xA145813D, 0x758FE5D6, 0x87E466D5, 0x94B49521, 0x66DF1622,
  0x38CC2A06, 0xCAA7A905, 0xD9F75AF1, 0x2B9CD9F2, 0xFF56BD19, 0x0D3D3E1A, 0x1E6DCDEE, 0xEC064EED,
  0xC38D26C4, 0x31E6A5C7, 0x22B65633, 0xD0DDD530, 0x0417B1DB, 0xF67C32D8, 0xE52CC12C, 0x1747422F,
  0x49547E0B, 0xBB3FFD08, 0xA86F0EFC, 0x5A048DFF, 0x8ECEE914, 0x7CA56A17, 0x6FF599E3, 0x9D9E1AE0,
  0xD3D3E1AB, 0x21B862A8, 0x32E8915C, 0xC083125F, 0x144976B4, 0xE622F5B7, 0xF5720643, 0x07198540,
  0x590AB964, 0xAB613A67, 0xB831C993, 0x4A5A4A90, 0x9E902E7B, 0x6CFBAD78, 0x7FAB5E8C, 0x8DC0DD8F,
  0xE330A81A, 0x115B2B19, 0x020BD8ED, 0xF0605BEE, 0x24AA3F05, 0xD6C1BC06, 0xC5914FF2, 0x37FACCF1,
  0x69E9F0D5, 0x9B8273D6, 0x88D28022, 0x7AB90321, 0xAE7367CA, 0x5C18E4C9, 0x4F48173D, 0xBD23943E,
  0xF36E6F75, 0x0105EC76, 0x12551F82, 0xE03E9C81, 0x34F4F86A, 0xC69F7B69, 0xD5CF889D, 0x27A40B9E,
  0x79B737BA, 0x8BDCB4B9, 0x988C474D, 0x6AE7C44E, 0xBE2DA0A5, 0x4C4623A6, 0x5F16D052, 0xAD7D5351]

def checksumCompute (data : Bytes.Mem) (len : Nat) : BitVec 32 :=
  ~~~(List.range len).foldl
    (fun crc i => crc >>> 8 ^^^ crc32cTable.getD ((crc ^^^ (data i).setWidth 32) &&& 0xFF#32).toNat 0) 0xFFFFFFFF#32

def headerChecksumUpdate (x : Bytes.Mem) (len : Nat) : Bytes.Mem :=
  store (store x 16 4 0) 16 4 (checksumCompute (store x 16 4 0) len).toNat

/-- Does `header_checksum_verify` return `SMKFS_OK`? -/
def headerChecksumVerify (x : Bytes.Mem) (len : Nat) : Bool :=
  decide (len ≤ blockSize) && (checksumCompute (store x 16 4 0) len).toNat == load x 16 4

/-! ## The polynomial -/

def polynomial : BitVec 32 := 0x82F63B78#32

def crc32c (l : List Byte) : BitVec 32 := ~~~(Crc.bitsOf l).foldl (Crc.step polynomial) 0xFFFFFFFF#32

theorem crc32cTable_eq :
    crc32cTable = (List.range 256).map (fun i => (Crc.shift polynomial)^[8] (BitVec.ofNat 32 i)) := by
  decide +kernel

theorem crc32cTable_getD (i : BitVec 8) : crc32cTable.getD i.toNat 0 = (Crc.shift polynomial)^[8] (i.setWidth 32) := by
  rw [crc32cTable_eq, List.getD_eq_getElem _ _ (by simpa using i.isLt), List.getElem_map, List.getElem_range,
    BitVec.ofNat_toNat]

theorem and_ff (c : BitVec 32) : c &&& 0xFF#32 = (c.setWidth 8).setWidth 32 := by
  apply BitVec.eq_of_getLsbD_eq
  intro i hi
  have hff : ∀ i : Fin 32, (0xFF#32).getLsbD i = decide (i.val < 8) := by decide
  simp only [BitVec.getLsbD_and, hff ⟨i, hi⟩, BitVec.getLsbD_setWidth, hi, decide_true, Bool.true_and]
  exact Bool.and_comm _ _

theorem tableStep (crc : BitVec 32) (d : Byte) :
    crc >>> 8 ^^^ crc32cTable.getD ((crc ^^^ d.setWidth 32) &&& 0xFF#32).toNat 0 = Crc.chunk polynomial crc d := by
  have hi : ((crc ^^^ d.setWidth 32) &&& 0xFF#32).toNat = (crc.setWidth 8 ^^^ d).toNat := by
    have hlow : (crc ^^^ d.setWidth 32).setWidth 8 = crc.setWidth 8 ^^^ d := by simp
    rw [and_ff, hlow, BitVec.toNat_setWidth_of_le (by decide)]
  rw [Crc.chunk_eq, hi, crc32cTable_getD]

theorem checksumCompute_eq (data : Bytes.Mem) (len : Nat) :
    checksumCompute data len = ~~~((List.range len).map data).foldl (Crc.chunk polynomial) 0xFFFFFFFF#32 := by
  simp only [checksumCompute, List.foldl_map, tableStep]

theorem checksumCompute_crc32c (data : Bytes.Mem) (len : Nat) :
    checksumCompute data len = crc32c ((List.range len).map data) := by
  rw [checksumCompute_eq, crc32c, Crc.foldl_chunk (by decide)]

example : checksumCompute (ofList [0x31, 0x32, 0x33, 0x34, 0x35, 0x36, 0x37, 0x38, 0x39]) 9 = 0xE3069283#32 := by
  decide

theorem redo_checksumCompute (data : Bytes.Mem) (len : Nat) :
    Redo.checksumCompute data len = (checksumCompute data len).toNat := by
  have hbytes : ∀ (n a : Nat) (crc : BitVec 32), Redo.crcBytes data a n crc =
      ((List.range' a n).map data).foldl (Crc.chunk polynomial) crc := by
    intro n
    induction n with
    | zero => exact fun _ _ => rfl
    | succ n ih =>
      intro a crc
      rw [Redo.crcBytes, ih, List.range'_succ, List.map_cons, List.foldl_cons, Crc.chunk_eq]
      rfl
  rw [Redo.checksumCompute, hbytes, checksumCompute_eq, List.range_eq_range']

theorem redo_headerChecksumUpdate : Redo.headerChecksumUpdate = headerChecksumUpdate := by
  funext x len
  rw [Redo.headerChecksumUpdate, redo_checksumCompute, headerChecksumUpdate]

theorem redo_headerChecksumVerify : Redo.headerChecksumVerify = headerChecksumVerify := by
  funext x len
  rw [Redo.headerChecksumVerify, redo_checksumCompute, headerChecksumVerify]

/-! ## A sealed structure -/

theorem checksumCompute_ne {x y : Bytes.Mem} {a len : Nat} (ha : a < len) (hd : x a ≠ y a)
    (h : ∀ i, i ≠ a → x i = y i) : checksumCompute x len ≠ checksumCompute y len := by
  have hrange : List.range len = List.range a ++ a :: List.range' (a + 1) (len - a - 1) := by
    have hadd : len = a + (len - a - 1 + 1) := by omega
    conv => lhs; rw [hadd]
    rw [List.range_eq_range', List.range_eq_range', ← List.range'_succ, ← List.range'_append_1, Nat.zero_add]
  have hfront : (List.range a).map x = (List.range a).map y :=
    List.map_congr_left (fun i hi => h i (by have := List.mem_range.1 hi; omega))
  have hback : (List.range' (a + 1) (len - a - 1)).map x = (List.range' (a + 1) (len - a - 1)).map y :=
    List.map_congr_left (fun i hi => h i (by have := List.mem_range'_1.1 hi; omega))
  rw [checksumCompute_eq, checksumCompute_eq, hrange, List.map_append, List.map_append, List.map_cons, List.map_cons,
    hfront, hback]
  intro hc
  exact Crc.foldl_chunk_ne (by decide) (by decide) _ _ hd _ (BitVec.not_inj.1 hc)

theorem headerChecksumVerify_update (x : Bytes.Mem) {len : Nat} (h : len ≤ blockSize) :
    headerChecksumVerify (headerChecksumUpdate x len) len = true := by
  have hv : (checksumCompute (store x 16 4 0) len).toNat < 256 ^ 4 := (checksumCompute _ len).isLt
  rw [headerChecksumVerify, headerChecksumUpdate, store_store, store_store, load_store_of_lt hv]
  simp [h]

def flipBit (x : Bytes.Mem) (a k : Nat) : Bytes.Mem := Function.update x a (x a ^^^ 1#8 <<< k)

theorem flipBit_ne (x : Bytes.Mem) (a : Nat) {k : Nat} (hk : k < 8) : flipBit x a k a ≠ x a := by
  rw [flipBit, Function.update_self]
  intro h
  have hbit := congrArg (·.getLsbD k) h
  simp [hk] at hbit

theorem flipBit_of_ne (x : Bytes.Mem) {a k i : Nat} (h : i ≠ a) : flipBit x a k i = x i :=
  Function.update_of_ne h _ _

theorem headerChecksumVerify_flipBit {x : Bytes.Mem} {len a k : Nat} (h : headerChecksumVerify x len = true)
    (ha : a < len) (hk : k < 8) : headerChecksumVerify (flipBit x a k) len = false := by
  rw [headerChecksumVerify, Bool.and_eq_true, decide_eq_true_eq, beq_iff_eq] at h
  obtain ⟨hlen, hsum⟩ := h
  rw [headerChecksumVerify, decide_eq_true hlen, Bool.true_and, beq_eq_false_iff_ne]
  by_cases hfield : 16 ≤ a ∧ a < 20
  · have hclear : store (flipBit x a k) 16 4 0 = store x 16 4 0 := by
      funext i
      by_cases hi : 16 ≤ i ∧ i < 16 + 4
      · simp [store, hi]
      · simp only [store, if_neg hi]
        exact flipBit_of_ne x (by omega)
    rw [hclear, hsum]
    intro hload
    exact flipBit_ne x a hk (eq_of_load_eq hload a (by omega) (by omega)).symm
  · have hload : load (flipBit x a k) 16 4 = load x 16 4 :=
      load_congr (fun i h1 h2 => flipBit_of_ne x (by omega))
    have hne : checksumCompute (store (flipBit x a k) 16 4 0) len ≠ checksumCompute (store x 16 4 0) len := by
      apply checksumCompute_ne ha
      · rw [store, store, if_neg (by omega), if_neg (by omega)]
        exact flipBit_ne x a hk
      · intro i hi
        simp only [store, flipBit_of_ne x hi]
    rw [hload, ← hsum]
    exact fun hc => hne (BitVec.eq_of_toNat_eq hc)

/-- **The checksum is the CRC32C of the bytes, and it guards every bit of a sealed structure.** -/
theorem checksum_correct :
    (∀ (data : Bytes.Mem) (len : Nat), checksumCompute data len = crc32c ((List.range len).map data)) ∧
    ∀ (x : Bytes.Mem) (len : Nat), 32 ≤ len → len ≤ 4096 →
      headerChecksumVerify (headerChecksumUpdate x len) len = true ∧
      ∀ a k, a < len → k < 8 → headerChecksumVerify (flipBit (headerChecksumUpdate x len) a k) len = false := by
  refine ⟨checksumCompute_crc32c, fun x len _ hlen => ?_⟩
  have hv := headerChecksumVerify_update x hlen
  exact ⟨hv, fun a k ha hk => headerChecksumVerify_flipBit hv ha hk⟩

/-- A header alone, sealed, and a bit of its checksum turned over. -/
theorem checksum_correct_header :
    headerChecksumVerify (headerChecksumUpdate (fun _ => 0) 32) 32 = true ∧
    headerChecksumVerify (flipBit (headerChecksumUpdate (fun _ => 0) 32) 16 0) 32 = false :=
  have h := checksum_correct.2 (fun _ => 0) 32 (by decide) (by decide)
  ⟨h.1, h.2 16 0 (by decide) (by decide)⟩

end Checksum
end SmkFs
end AmitX

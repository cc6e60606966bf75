import GameBoy.Cartridge
import Mathlib.Algebra.BigOperators.Intervals
import Mathlib.Algebra.BigOperators.Ring.Finset
import Mathlib.Data.List.DropRight

/-!
# What a cartridge header says

A header is a function of the bytes `0x134` to `0x14D` of an image, and an image that has them all
has a header. Its title is what the bytes before the first zero are shown as, up to the blanks at
the end (`CartridgeHeader.Titled`). Its checksum is minus the sum of the 25 bytes before it and one
more for each of them, modulo 256; so the stated checksum is right if and only if all 26 bytes and
25 add up to a multiple of 256 (`CartridgeHeader.checksumOk_iff`). Another byte in one place changes
the sum by less than 256 and by more than zero, which is why the checksum tells it.

Main theorem: `CartridgeHeader.header_exact`.
-/

namespace GameBoy.CartridgeHeader

variable {image : Array Byte} {header : CartridgeHeader}

/-! ## Bytes of an image -/

/-- A byte of an image, as a number. -/
def byteAt (image : Array Byte) (i : ℕ) : ℕ := (image.getD i 0).toNat

theorem byteAt_lt (image : Array Byte) (i : ℕ) : byteAt image i < 256 := (image.getD i 0).toNat_lt

theorem byteAt_set {i : ℕ} (hi : i < image.size) (v : Byte) (j : ℕ) :
    byteAt (image.setIfInBounds i v) j = if j = i then v.toNat else byteAt image j := by
  simp only [byteAt, Array.getD_eq_getD_getElem?, Array.getElem?_setIfInBounds]
  by_cases hj : j = i
  · subst hj
    simp [hi]
  · simp [hj, Ne.symm hj]

theorem getElem?_bytes (image : Array Byte) (start stop i : ℕ) :
    (bytes image start stop)[i]? = if i < stop - start then image[start + i]? else none := by
  rw [bytes, Array.getElem?_toList, Array.getElem?_extract]
  by_cases hsize : start + i < image.size
  · have hiff : i < min stop image.size - start ↔ i < stop - start := by omega
    simp only [hiff]
  · rw [if_neg (by omega), Array.getElem?_eq_none (by omega), ite_self]

theorem bytes_eq_map {start stop : ℕ} (hstop : stop ≤ image.size) :
    bytes image start stop = (List.range (stop - start)).map fun i => image.getD (start + i) 0 := by
  refine List.ext_getElem? fun i => ?_
  rw [getElem?_bytes]
  by_cases hi : i < stop - start
  · have hsize : start + i < image.size := by omega
    simp [hi, hsize]
  · simp [hi]

/-! ## The title -/

/-- What a byte of the title is shown as: itself if it is printable, and else a question mark. -/
def Shows (b : Byte) (c : Char) : Prop :=
  if 0x20 ≤ b.toNat ∧ b.toNat ≤ 0x7E then c.toNat = b.toNat else c = '?'

/-- The title that some bytes spell: the characters that those before the first zero are shown as,
up to the blanks at the end. -/
def Titled (field : List Byte) (title : String) : Prop :=
  ∃ shown rest blanks, field = shown ++ rest ∧ (∀ b ∈ shown, b ≠ 0) ∧
    (∀ b, rest.head? = some b → b = 0) ∧
    List.Forall₂ Shows shown (title.toList ++ List.replicate blanks ' ') ∧
    title.toList.getLast? ≠ some ' '

theorem shows_titleChar (b : Byte) : Shows b (titleChar b) := by
  revert b
  refine Byte.forall_of_fin ?_
  simp only [Shows, titleChar]
  decide +kernel

theorem Shows.printable {b : Byte} {c : Char} (h : Shows b c) :
    0x20 ≤ c.toNat ∧ c.toNat ≤ 0x7E := by
  unfold Shows at h
  split at h
  · omega
  · subst h
    decide

theorem trimEnd_append_blanks (cs : List Char) :
    ∃ blanks, trimEnd cs ++ List.replicate blanks ' ' = cs := by
  refine ⟨(cs.rtakeWhile (· == ' ')).length, ?_⟩
  have hblanks : cs.rtakeWhile (· == ' ') =
      List.replicate (cs.rtakeWhile (· == ' ')).length ' ' :=
    List.eq_replicate_of_mem fun c hc => by simpa using List.mem_rtakeWhile_imp hc
  rw [← hblanks]
  exact List.rdropWhile_append_rtakeWhile

theorem getLast?_trimEnd (cs : List Char) : (trimEnd cs).getLast? ≠ some ' ' := by
  by_cases hne : cs.rdropWhile (· == ' ') = []
  · rw [show trimEnd cs = [] from hne]
    simp
  · have hlast := List.rdropWhile_last_not (· == ' ') cs hne
    rw [show trimEnd cs = cs.rdropWhile (· == ' ') from rfl, List.getLast?_eq_some_getLast hne]
    simpa using hlast

theorem titled_titleOf (field : List Byte) : Titled field (titleOf field) := by
  obtain ⟨blanks, hblanks⟩ := trimEnd_append_blanks ((field.takeWhile (· != 0)).map titleChar)
  refine ⟨field.takeWhile (· != 0), field.dropWhile (· != 0), blanks,
    List.takeWhile_append_dropWhile.symm, fun b hb => ?_, fun b hb => ?_, ?_, ?_⟩
  · simpa using List.mem_takeWhile_imp hb
  · have hhead := List.head?_dropWhile_not (· != 0) field
    rw [hb] at hhead
    simpa using hhead
  · rw [titleOf, String.toList_ofList, hblanks, List.forall₂_map_right_iff, List.forall₂_same]
    exact fun b _ => shows_titleChar b
  · rw [titleOf, String.toList_ofList]
    exact getLast?_trimEnd _

theorem Titled.length_le {field : List Byte} {title : String} (h : Titled field title) :
    title.length ≤ field.length := by
  obtain ⟨shown, rest, blanks, rfl, -, -, hshown, -⟩ := h
  have hlength := hshown.length_eq
  rw [List.length_append, String.length_toList] at hlength
  rw [List.length_append]
  omega

theorem Titled.printable {field : List Byte} {title : String} (h : Titled field title) :
    ∀ c ∈ title.toList, 0x20 ≤ c.toNat ∧ c.toNat ≤ 0x7E := by
  obtain ⟨shown, -, blanks, -, -, -, hshown, -⟩ := h
  have hprintable : List.Forall₂ (fun c b => (0x20 ≤ c.toNat ∧ c.toNat ≤ 0x7E) ∧ Shows b c)
      (title.toList ++ List.replicate blanks ' ') shown :=
    (hshown.imp fun _ _ h => ⟨h.printable, h⟩).flip
  exact fun c hc => ((List.forall₂_and_left _ _).mp hprintable).1 c (List.mem_append_left _ hc)

/-! ## The checksum -/

theorem toNat_foldl_checksum (bs : List Byte) (start : Byte) :
    ((bs.foldl (fun sum b => sum - b - 1) start).toNat : ℤ) =
      (start.toNat - (bs.map UInt8.toNat).sum - bs.length) % 256 := by
  induction bs generalizing start with
  | nil =>
    have := start.toNat_lt
    simp
    omega
  | cons b bs ih =>
    have hstep : ((start - b - 1).toNat : ℤ) = (start.toNat - b.toNat - 1) % 256 := by
      have := start.toNat_lt
      have := b.toNat_lt
      simp only [UInt8.toNat_sub, UInt8.reduceToNat]
      omega
    rw [List.foldl_cons, ih, hstep, List.map_cons, List.sum_cons, List.length_cons]
    omega

/-- The sum of the bytes that the checksum is about. -/
def sum (image : Array Byte) : ℕ := ∑ i ∈ Finset.Icc 0x134 0x14C, byteAt image i

theorem toNat_checksumOf_bytes (h : 0x14D < image.size) :
    ((checksumOf (bytes image 0x134 0x14D)).toNat : ℤ) = (-25 - sum image) % 256 := by
  have hrange : sum image = ∑ i ∈ Finset.range 25, byteAt image (0x134 + i) :=
    Finset.sum_Ico_eq_sum_range (byteAt image) 0x134 0x14D
  have hlist : ((bytes image 0x134 0x14D).map UInt8.toNat).sum = sum image := by
    rw [hrange, ← List.toFinset_range, List.sum_toFinset _ List.nodup_range,
      bytes_eq_map h.le, List.map_map]
    rfl
  have hlength : (bytes image 0x134 0x14D).length = 25 := by
    rw [bytes_eq_map h.le, List.length_map, List.length_range]
  have hfold := toNat_foldl_checksum (bytes image 0x134 0x14D) 0
  rw [hlist, hlength] at hfold
  refine hfold.trans ?_
  simp only [UInt8.reduceToNat]
  omega

/-! ## Parsing -/

theorem parse?_eq_some_iff :
    parse? image = some header ↔ 0x14D < image.size ∧
      header =
        { title := titleOf (bytes image 0x134 0x144)
          cartridgeType := image.getD 0x147 0
          romSize := image.getD 0x148 0
          checksum := image.getD 0x14D 0
          computed := checksumOf (bytes image 0x134 0x14D) } := by
  unfold parse?
  split
  · simp [*, eq_comm]
  · simp [*]

theorem exists_parse? (h : 0x14D < image.size) : ∃ header, parse? image = some header :=
  ⟨_, parse?_eq_some_iff.mpr ⟨h, rfl⟩⟩

theorem parse?_congr {image' : Array Byte}
    (h : ∀ i, 0x134 ≤ i → i ≤ 0x14D → image'[i]? = image[i]?) : parse? image' = parse? image := by
  have hbyte (i : ℕ) (hlow : 0x134 ≤ i) (hhigh : i ≤ 0x14D) : image'.getD i 0 = image.getD i 0 := by
    rw [Array.getD_eq_getD_getElem?, Array.getD_eq_getD_getElem?, h i hlow hhigh]
  have hbytes (stop : ℕ) (hstop : stop ≤ 0x14E) :
      bytes image' 0x134 stop = bytes image 0x134 stop := by
    refine List.ext_getElem? fun i => ?_
    rw [getElem?_bytes, getElem?_bytes]
    by_cases hi : i < stop - 0x134
    · rw [if_pos hi, if_pos hi, h _ (by omega) (by omega)]
    · rw [if_neg hi, if_neg hi]
  have hsize : 0x14D < image'.size ↔ 0x14D < image.size := by
    rw [← not_le, ← not_le, ← Array.getElem?_eq_none_iff, ← Array.getElem?_eq_none_iff,
      h _ (by decide) le_rfl]
  unfold parse?
  simp only [hsize, hbyte, hbytes, Nat.reduceLeDiff]

/-- The stated checksum is right exactly when it, the sum and the number of its bytes cancel. -/
theorem checksumOk_iff (h : parse? image = some header) :
    header.checksumOk = true ↔ (sum image + 25 + byteAt image 0x14D) % 256 = 0 := by
  obtain ⟨hsize, rfl⟩ := parse?_eq_some_iff.mp h
  have hcomputed := toNat_checksumOf_bytes hsize
  have hlt := byteAt_lt image 0x14D
  dsimp only [checksumOk]
  rw [beq_iff_eq, ← UInt8.toNat_inj, ← byteAt]
  omega

/-! ## Other bytes -/

theorem sum_set_checksum (h : 0x14D < image.size) (v : Byte) :
    sum (image.setIfInBounds 0x14D v) = sum image := by
  refine Finset.sum_congr rfl fun i hi => ?_
  rw [byteAt_set h, if_neg (by have := Finset.mem_Icc.mp hi; omega)]

theorem sum_set {i : ℕ} (hi : i ∈ Finset.Icc 0x134 0x14C) (h : i < image.size) (v : Byte) :
    sum (image.setIfInBounds i v) + byteAt image i = sum image + v.toNat := by
  have hrest : ∑ j ∈ (Finset.Icc 0x134 0x14C).erase i, byteAt (image.setIfInBounds i v) j =
      ∑ j ∈ (Finset.Icc 0x134 0x14C).erase i, byteAt image j :=
    Finset.sum_congr rfl fun j hj => by rw [byteAt_set h, if_neg (Finset.ne_of_mem_erase hj)]
  unfold sum
  rw [← Finset.add_sum_erase _ _ hi, ← Finset.add_sum_erase _ _ hi, hrest, byteAt_set h, if_pos rfl]
  omega

/-- One value of the stated checksum is right, whatever the other bytes are. -/
theorem existsUnique_checksum (h : 0x14D < image.size) :
    ∃! v : Byte, ∃ header, parse? (image.setIfInBounds 0x14D v) = some header ∧
      header.checksumOk = true := by
  have hiff (v : Byte) : (∃ header, parse? (image.setIfInBounds 0x14D v) = some header ∧
      header.checksumOk = true) ↔ (sum image + 25 + v.toNat) % 256 = 0 := by
    have hsize : 0x14D < (image.setIfInBounds 0x14D v).size := by simpa
    obtain ⟨header, hheader⟩ := exists_parse? hsize
    have hok := checksumOk_iff hheader
    rw [sum_set_checksum h, byteAt_set h, if_pos rfl] at hok
    rw [← hok, hheader]
    simp
  simp only [hiff]
  have hcomputed := toNat_checksumOf_bytes h
  refine ⟨checksumOf (bytes image 0x134 0x14D), by omega, fun v hv => UInt8.toNat_inj.mp ?_⟩
  have := v.toNat_lt
  omega

/-- A checksum that was right is wrong when one byte of its sum is another. -/
theorem checksumOk_of_changed (h : parse? image = some header) (hok : header.checksumOk = true)
    {i : ℕ} (hlow : 0x134 ≤ i) (hhigh : i ≤ 0x14C) {v : Byte} (hv : image[i]? ≠ some v) :
    ∃ header', parse? (image.setIfInBounds i v) = some header' ∧
      header'.checksumOk = false := by
  obtain ⟨hsize, -⟩ := parse?_eq_some_iff.mp h
  have hi : i < image.size := by omega
  have hsize' : 0x14D < (image.setIfInBounds i v).size := by simpa
  obtain ⟨header', hheader'⟩ := exists_parse? hsize'
  refine ⟨header', hheader', eq_false_of_ne_true fun hok' => hv ?_⟩
  have hbefore := (checksumOk_iff h).mp hok
  have hafter := (checksumOk_iff hheader').mp hok'
  have hsum := sum_set (Finset.mem_Icc.mpr ⟨hlow, hhigh⟩) hi v
  rw [byteAt_set hi, if_neg (by omega)] at hafter
  have hbyte : v.toNat = byteAt image i := by
    have := v.toNat_lt
    have := byteAt_lt image i
    omega
  rw [Array.getElem?_eq_getElem hi, UInt8.toNat_inj.mp hbyte, Array.getD_eq_getD_getElem?,
    Array.getElem?_eq_getElem hi, Option.getD_some]

/-- **The cartridge header.** An image has a header exactly when it is long enough to state a
checksum, and the header depends on the bytes `0x134` to `0x14D` only. The title is what the sixteen
bytes `0x134` to `0x143` spell, which is at most sixteen printable characters. The checksum that the
bytes should have is minus their sum and their number, modulo 256. So there is one value to state
that is right, whatever the other bytes are; and where it is stated, it is wrong for an image with
another byte in one place of the sum. -/
theorem header_exact (image : Array Byte) :
    ((parse? image).isSome = true ↔ 0x14D < image.size) ∧
      (∀ image' : Array Byte, (∀ i, 0x134 ≤ i → i ≤ 0x14D → image'[i]? = image[i]?) →
        parse? image' = parse? image) ∧
      ∀ header, parse? image = some header →
        Titled ((List.range 16).map fun i => image.getD (0x134 + i) 0) header.title ∧
          header.title.length ≤ 16 ∧
          (∀ c ∈ header.title.toList, 0x20 ≤ c.toNat ∧ c.toNat ≤ 0x7E) ∧
          (header.computed.toNat : ℤ) =
            (-25 - ∑ i ∈ Finset.Icc 0x134 0x14C, (byteAt image i : ℤ)) % 256 ∧
          (∃! v : Byte, ∃ header', parse? (image.setIfInBounds 0x14D v) = some header' ∧
            header'.checksumOk = true) ∧
          (header.checksumOk = true → ∀ (i : ℕ) (v : Byte), 0x134 ≤ i → i ≤ 0x14C →
            image[i]? ≠ some v → ∃ header', parse? (image.setIfInBounds i v) = some header' ∧
              header'.checksumOk = false) := by
  refine ⟨?_, fun image' => parse?_congr, fun header h => ?_⟩
  · rw [Option.isSome_iff_exists]
    exact ⟨fun ⟨_, h⟩ => (parse?_eq_some_iff.mp h).1, exists_parse?⟩
  obtain ⟨hsize, hheader⟩ := parse?_eq_some_iff.mp h
  have htitled : Titled ((List.range 16).map fun i => image.getD (0x134 + i) 0) header.title := by
    have hfield : bytes image 0x134 0x144 =
        (List.range 16).map fun i => image.getD (0x134 + i) 0 := bytes_eq_map (by omega)
    rw [hheader, ← hfield]
    exact titled_titleOf _
  refine ⟨htitled, ?_, htitled.printable, ?_, existsUnique_checksum hsize,
    fun hok i v hlow hhigh hv => checksumOk_of_changed h hok hlow hhigh hv⟩
  · simpa using htitled.length_le
  · have hcomputed := toNat_checksumOf_bytes hsize
    rw [hheader, hcomputed, sum, Nat.cast_sum]

/-- A title with a byte that is not printable and blanks behind it, and another one in its place:
the checksum is right for the first title only. -/
theorem header_exact_of_changed_title :
    let image : Array Byte := (((((Array.replicate 0x14E 0).setIfInBounds 0x134 0x50).setIfInBounds
      0x135 0x4F).setIfInBounds 0x136 0xFF).setIfInBounds 0x137 0x20).setIfInBounds 0x14D 0x29
    let header : CartridgeHeader := ⟨"PO?", 0, 0, 0x29, 0x29⟩
    parse? image = some header ∧ parse? (image.push 7) = some header ∧
      header.checksumOk = true ∧ image[0x136]? ≠ some 0x53 ∧
      ∃ header', parse? (image.setIfInBounds 0x136 0x53) = some header' ∧
        header'.checksumOk = false := by
  intro image header
  have hheader : parse? image = some header := by decide +kernel
  have hchanged : image[0x136]? ≠ some 0x53 := by decide +kernel
  have hsize : image.size = 0x14E := by simp [image]
  obtain ⟨-, hsame, hfacts⟩ := header_exact image
  obtain ⟨-, -, -, -, -, hchange⟩ := hfacts header hheader
  refine ⟨hheader, (hsame _ fun i _ hi => ?_).trans hheader, by decide, hchanged,
    hchange (by decide) 0x136 0x53 (by decide) (by decide) hchanged⟩
  rw [Array.getElem?_push, if_neg (by omega)]

end GameBoy.CartridgeHeader

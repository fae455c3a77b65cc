import Consequence.Proofs.Stream

/-!
# Bytes from the stream

A generator draws words, double words and any number of bytes, and all three read one stream. A
double word is the next two words, the first of them as its low half. Bytes are those of the next
words, spelled one after the other from the least significant byte on, as many words as it takes to
cover the bytes; what the last word has beyond them is lost, and the next draw starts at a word.

The generator does not go word by word: it takes eight bytes at a time, from a double word, and what
is left at the end from a double word or from a word. That this is the same row of bytes comes down
to a double word being spelled as its two halves are (`littleEndian_append`), and that it leaves the
same generator, to a rest of one to four bytes taking one word and a longer rest two.

So where a row of bytes ends with a word, the next one goes on in the same stream, and the two
together are one longer row. Both that and the step of eight bytes are `take_spelled_drawn_add`.
-/

namespace Consequence.Pcg

/-! ## Spelling -/

/-- The low bytes of a number, as many as asked for and the least significant one first. -/
def littleEndian : (size number : Nat) → List UInt8
  | 0, _ => []
  | size + 1, number => UInt8.ofNat number :: littleEndian size (number / 256)

theorem length_littleEndian (size number : Nat) : (littleEndian size number).length = size := by
  induction size generalizing number with
  | zero => rfl
  | succ size ih => rw [littleEndian, List.length_cons, ih]

/-- A number put together from a low and a high part is spelled part by part. -/
theorem littleEndian_append (size more : Nat) {low : Nat} (hlow : low < 256 ^ size) (high : Nat) :
    littleEndian (size + more) (low + 256 ^ size * high) =
      littleEndian size low ++ littleEndian more high := by
  induction size generalizing low with
  | zero =>
      rw [Nat.lt_one_iff.1 hlow, Nat.zero_add, Nat.zero_add, pow_zero, one_mul]
      rfl
  | succ size ih =>
      have hbyte : UInt8.ofNat (low + 256 ^ (size + 1) * high) = UInt8.ofNat low := by
        rw [← UInt8.toNat_inj, UInt8.toNat_ofNat', UInt8.toNat_ofNat', pow_succ', mul_assoc]
        exact Nat.add_mul_mod_self_left ..
      have hrest : (low + 256 ^ (size + 1) * high) / 256 = low / 256 + 256 ^ size * high := by
        rw [pow_succ', mul_assoc, Nat.add_mul_div_left _ _ (by decide)]
      have hlow' : low / 256 < 256 ^ size := Nat.div_lt_of_lt_mul (by rwa [← pow_succ'])
      rw [Nat.succ_add, littleEndian, littleEndian, hbyte, hrest, ih hlow', List.cons_append]

theorem bytesOf32_eq (word : UInt32) : bytesOf32 word = littleEndian 4 word.toNat := by
  simp [bytesOf32, littleEndian, ← UInt8.toNat_inj, Nat.shiftRight_eq_div_pow,
    Nat.div_div_eq_div_mul]

theorem bytesOf64_eq (word : UInt64) : bytesOf64 word = littleEndian 8 word.toNat := by
  simp [bytesOf64, littleEndian, ← UInt8.toNat_inj, Nat.shiftRight_eq_div_pow,
    Nat.div_div_eq_div_mul]

/-- The bytes of a row of words, one word after the other. -/
def spelled (words : List UInt32) : List UInt8 :=
  words.flatMap fun word => littleEndian 4 word.toNat

theorem length_spelled (words : List UInt32) : (spelled words).length = 4 * words.length := by
  simp [spelled, List.length_flatMap, length_littleEndian, Nat.mul_comm]

/-! ## Words -/

/-- The words that come next, so many of them. -/
def drawn (g : Pcg) (count : Nat) : List UInt32 := (List.range count).map g.stream

theorem length_drawn (g : Pcg) (count : Nat) : (g.drawn count).length = count := by
  rw [drawn, List.length_map, List.length_range]

theorem drawn_add (g : Pcg) (count more : Nat) :
    g.drawn (count + more) = g.drawn count ++ (g.after count).drawn more := by
  rw [drawn, List.range_add, List.map_append, List.map_map]
  congr 1
  refine List.map_congr_left fun i _ => ?_
  rw [stream_after, Nat.add_comm]
  rfl

/-- Bytes beyond so many whole words are bytes of the words after them. -/
theorem take_spelled_drawn_add (g : Pcg) (words more count : Nat) :
    (spelled (g.drawn (words + more))).take (4 * words + count) =
      spelled (g.drawn words) ++ (spelled ((g.after words).drawn more)).take count := by
  have hlength : 4 * words = (spelled (g.drawn words)).length := by
    rw [length_spelled, length_drawn]
  rw [drawn_add, spelled, List.flatMap_append, hlength]
  exact List.take_length_add_append ..

/-- A double word is two words, and the first one is its low half. -/
theorem toNat_next64 (g : Pcg) :
    g.next64.1.toNat = (g.stream 0).toNat + 2 ^ 32 * (g.stream 1).toNat := by
  have hlow : (g.stream 0).toNat < 2 ^ 32 := (g.stream 0).toNat_lt
  have hhigh : (g.stream 1).toNat < 2 ^ 32 := (g.stream 1).toNat_lt
  have hshift : ((g.stream 1).toUInt64 <<< 32).toNat = (g.stream 1).toNat <<< 32 := by
    rw [UInt64.toNat_shiftLeft, UInt32.toNat_toUInt64]
    refine Nat.mod_eq_of_lt ?_
    show (g.stream 1).toNat <<< 32 < 2 ^ 64
    rw [Nat.shiftLeft_eq]
    omega
  calc g.next64.1.toNat
    _ = (g.stream 1).toNat <<< 32 ||| (g.stream 0).toNat := by
        rw [← hshift, ← UInt32.toNat_toUInt64, ← UInt64.toNat_or]
        rfl
    _ = (g.stream 1).toNat <<< 32 + (g.stream 0).toNat :=
        (Nat.shiftLeft_add_eq_or_of_lt hlow _).symm
    _ = (g.stream 0).toNat + 2 ^ 32 * (g.stream 1).toNat := by
        rw [Nat.shiftLeft_eq, Nat.add_comm, Nat.mul_comm]

theorem bytesOf32_next32 (g : Pcg) : bytesOf32 g.next32.1 = spelled (g.drawn 1) := by
  rw [bytesOf32_eq]
  exact (List.append_nil _).symm

theorem bytesOf64_next64 (g : Pcg) : bytesOf64 g.next64.1 = spelled (g.drawn 2) :=
  calc bytesOf64 g.next64.1
    _ = littleEndian 8 ((g.stream 0).toNat + 2 ^ 32 * (g.stream 1).toNat) := by
        rw [bytesOf64_eq, toNat_next64]
    _ = littleEndian 4 (g.stream 0).toNat ++ littleEndian 4 (g.stream 1).toNat :=
        littleEndian_append 4 4 (g.stream 0).toNat_lt _
    _ = spelled (g.drawn 2) :=
        congrArg (littleEndian 4 (g.stream 0).toNat ++ ·) (List.append_nil _).symm

/-! ## Rows of bytes -/

/-- The least number of words that have so many bytes. -/
def wordsFor (count : Nat) : Nat := (count + 3) / 4

theorem wordsFor_le_iff {count words : Nat} : wordsFor count ≤ words ↔ count ≤ 4 * words := by
  unfold wordsFor
  omega

/-- Whole words in front count for themselves. -/
theorem wordsFor_four_mul_add (words count : Nat) :
    wordsFor (4 * words + count) = words + wordsFor count := by
  unfold wordsFor
  omega

/-- Bytes are read off the words that cover them, and what is drawn next comes after these words. -/
theorem bytes_eq (count : Nat) (g : Pcg) :
    g.bytes count =
      ((spelled (g.drawn (wordsFor count))).take count, g.after (wordsFor count)) := by
  fun_induction bytes count g with
  | case1 count g word next hword rest last hrest ih =>
      -- A double word is two words in front, and the rest is a row from the generator after them.
      obtain ⟨rfl, rfl⟩ : g.next64.1 = word ∧ g.after 2 = next := Prod.ext_iff.1 hword
      obtain ⟨rfl, rfl⟩ := Prod.ext_iff.1 (hrest.symm.trans ih)
      show _ = ((spelled (g.drawn (wordsFor (count + 8)))).take (count + 8),
        g.after (wordsFor (count + 8)))
      have hcount : count + 8 = 4 * 2 + count := Nat.add_comm ..
      rw [hcount, wordsFor_four_mul_add, take_spelled_drawn_add, after_add, bytesOf64_next64]
  | case2 g => rfl
  | case3 count g hfew _ hlong word next hword =>
      obtain ⟨rfl, rfl⟩ : g.next64.1 = word ∧ g.after 2 = next := Prod.ext_iff.1 hword
      have hlt : count < 8 := Nat.lt_of_not_le fun h => hfew (count - 8) (Nat.sub_add_cancel h).symm
      have hwords : wordsFor count = 2 := by
        unfold wordsFor
        omega
      rw [hwords, bytesOf64_next64]
  | case4 count g _ hsome hshort word next hword =>
      obtain ⟨rfl, rfl⟩ : g.next32.1 = word ∧ g.after 1 = next := Prod.ext_iff.1 hword
      have hpos : 0 < count := Nat.pos_of_ne_zero hsome
      have hwords : wordsFor count = 1 := by
        unfold wordsFor
        omega
      rw [hwords, bytesOf32_next32]

theorem length_bytes (count : Nat) (g : Pcg) : (g.bytes count).1.length = count := by
  have hcovered : count ≤ 4 * wordsFor count := wordsFor_le_iff.1 le_rfl
  rw [bytes_eq, List.length_take, length_spelled, length_drawn, Nat.min_eq_left hcovered]

/-- Whole words are all used. -/
theorem bytes_four_mul (words : Nat) (g : Pcg) :
    g.bytes (4 * words) = (spelled (g.drawn words), g.after words) := by
  have hwords : wordsFor (4 * words) = words := wordsFor_four_mul_add words 0
  rw [bytes_eq, hwords, List.take_of_length_le]
  rw [length_spelled, length_drawn]

theorem bytes_four_mul_add (words more : Nat) (g : Pcg) :
    g.bytes (4 * words + more) =
      (spelled (g.drawn words) ++ ((g.after words).bytes more).1,
        ((g.after words).bytes more).2) := by
  rw [bytes_eq, wordsFor_four_mul_add, take_spelled_drawn_add, after_add, bytes_eq]

/-- All draws of a generator read one stream. Bytes are the first ones of the next words, spelled
one after the other, and as many words are used up as it takes to cover them. A double word is the
next two words, the first of them as the low half. So two rows of bytes in turn, of which the first
ends with a word, are one row. -/
theorem draws_read_stream (g : Pcg) :
    (∀ count, (g.bytes count).1.length = count ∧
      g.bytes count =
        ((spelled (g.drawn (wordsFor count))).take count, g.after (wordsFor count))) ∧
    (let low := g.next32
     let high := low.2.next32
     g.next64.1.toNat = low.1.toNat + 2 ^ 32 * high.1.toNat ∧ g.next64.2 = high.2) ∧
    ∀ words more,
      let first := g.bytes (4 * words)
      let second := first.2.bytes more
      g.bytes (4 * words + more) = (first.1 ++ second.1, second.2) := by
  refine ⟨fun count => ⟨length_bytes count g, bytes_eq count g⟩, ⟨toNat_next64 g, rfl⟩,
    fun words more => ?_⟩
  rw [bytes_four_mul]
  exact bytes_four_mul_add words more g

end Consequence.Pcg

import MrubyZmq.Records
import MrubyZmq.Zap

/-!
# Reading the metadata of a reply

The last frame of a reply is a sequence of properties, each of them made of a
byte with the length of its name, the name, four bytes with the length of its
value, and the value (`readProperty`). What `send_reply` writes is read as the
pairs it iterates over, exactly if their values are shorter than `2 ^ 32` bytes:
a longer one does not have its length in four bytes, which `send_reply` does not
check as it checks the length of the keys (`metadata_read_iff`).
-/

namespace MrubyZmq

/-- The iteration over pairs of strings. -/
def Each.strings (pairs : List (Bytes × Bytes)) : Each where
  pairs := pairs.map fun p => (.ok p.1, .ok p.2)

namespace Zap

/-- What the loop of `send_reply` appends for a pair. -/
def encodePair (p : Bytes × Bytes) : Bytes :=
  packC p.1.length ++ p.1 ++ packN p.2.length ++ p.2

/-- A number of four bytes, the highest first. -/
def readN : Bytes → Option (ℕ × Bytes)
  | a :: b :: c :: d :: l =>
    some (a.toNat * 2 ^ 24 + b.toNat * 2 ^ 16 + c.toNat * 2 ^ 8 + d.toNat, l)
  | _ => none

/-- `n` bytes. -/
def readBytes (n : ℕ) (l : Bytes) : Option (Bytes × Bytes) :=
  if n ≤ l.length then some (l.take n, l.drop n) else none

/-- A property, by the grammar of ZMTP. -/
def readProperty : Bytes → Option ((Bytes × Bytes) × Bytes)
  | [] => none
  | n :: l =>
    (readBytes n.toNat l).bind fun name => (readN name.2).bind fun n =>
      (readBytes n.1 n.2).map fun value => ((name.1, value.1), value.2)

/-- The properties of a metadata frame. -/
def properties (frame : Bytes) : Option (List (Bytes × Bytes)) := readAll readProperty frame

/-- The pairs whose keys have their length in a byte. -/
def ShortKeys (pairs : List (Bytes × Bytes)) : Prop := ∀ p ∈ pairs, p.1.length ≤ 255

/-- The pairs whose values have their length in four bytes. -/
def ShortValues (pairs : List (Bytes × Bytes)) : Prop := ∀ p ∈ pairs, p.2.length < 2 ^ 32

variable {n : ℕ} {l rest encoded : Bytes} {p : Bytes × Bytes} {pairs pairs' : List (Bytes × Bytes)}

/-! ## Writing -/

theorem encodePairs_strings (h : ShortKeys pairs) :
    encodePairs (Each.strings pairs).pairs encoded = .ok (encoded ++ pairs.flatMap encodePair) := by
  induction pairs generalizing encoded with
  | nil => rw [List.flatMap_nil, List.append_nil]; rfl
  | cons p pairs ih =>
    obtain ⟨hp, hpairs⟩ := List.forall_mem_cons.1 h
    rw [List.flatMap_cons, ← List.append_assoc, ← ih hpairs]
    exact if_neg (Nat.not_lt.2 hp)

theorem encodePairs_strings_long (h : ¬ShortKeys pairs) :
    encodePairs (Each.strings pairs).pairs encoded =
      .error (.argumentError "metadata keys can only be 8 bit long") := by
  induction pairs generalizing encoded with
  | nil => exact absurd (fun _ h => absurd h List.not_mem_nil) h
  | cons p pairs ih =>
    by_cases hp : 255 < p.1.length
    · exact if_pos hp
    · have hpairs : ¬ShortKeys pairs := fun hpairs =>
        h (List.forall_mem_cons.2 ⟨Nat.not_lt.1 hp, hpairs⟩)
      exact (if_neg hp).trans (ih hpairs)

theorem encodeMeta_strings (h : ShortKeys pairs) :
    encodeMeta (.strings pairs) = .ok (pairs.flatMap encodePair) := by
  rw [encodeMeta, encodePairs_strings h]
  rfl

theorem encodeMeta_strings_long (h : ¬ShortKeys pairs) :
    encodeMeta (.strings pairs) =
      .error (.argumentError "metadata keys can only be 8 bit long") := by
  rw [encodeMeta, encodePairs_strings_long h]
  rfl

/-! ## Reading -/

theorem toNat_packC (h : n ≤ 255) : (UInt8.ofNat n).toNat = n := by
  rw [UInt8.toNat_ofNat']
  omega

/-- A length below `2 ^ 32` is read back. -/
theorem readN_packN (h : n < 2 ^ 32) : readN (packN n ++ l) = some (n, l) := by
  simp only [packN, List.cons_append, List.nil_append, readN, UInt8.toNat_ofNat',
    Option.some.injEq, Prod.mk.injEq, and_true]
  omega

theorem readN_lt (h : readN l = some (n, rest)) : n < 2 ^ 32 := by
  rw [readN.eq_def] at h
  split at h
  · rename_i a b c d l
    obtain ⟨rfl, -⟩ := Prod.mk.inj (Option.some.inj h)
    have ha := a.toNat_lt
    have hb := b.toNat_lt
    have hc := c.toNat_lt
    have hd := d.toNat_lt
    omega
  · exact absurd h (by simp)

theorem readBytes_append : readBytes l.length (l ++ rest) = some (l, rest) := by
  rw [readBytes, if_pos (by simp)]
  simp

theorem readProperty_encodePair (hkey : p.1.length ≤ 255) (hvalue : p.2.length < 2 ^ 32) :
    readProperty (encodePair p ++ rest) = some (p, rest) := by
  have hname := @readBytes_append p.1 (packN p.2.length ++ (p.2 ++ rest))
  have hlength := @readN_packN _ (p.2 ++ rest) hvalue
  have hpair : encodePair p ++ rest =
      UInt8.ofNat p.1.length :: (p.1 ++ (packN p.2.length ++ (p.2 ++ rest))) := by
    rw [encodePair, packC, List.append_assoc, List.append_assoc, List.append_assoc]
    exact List.singleton_append
  rw [hpair, readProperty, toNat_packC hkey, hname, Option.bind_some, hlength, Option.bind_some,
    readBytes_append, Option.map_some]

/-- The length of a value which is read was read from four bytes. -/
theorem readProperty_lt (h : readProperty l = some (p, rest)) : p.2.length < 2 ^ 32 := by
  rcases l with _ | ⟨k, l⟩
  · exact absurd h (by simp [readProperty])
  · obtain ⟨⟨name, l₁⟩, -, h⟩ := Option.bind_eq_some_iff.1 h
    obtain ⟨⟨n, l₂⟩, hn, h⟩ := Option.bind_eq_some_iff.1 h
    obtain ⟨⟨value, l₃⟩, hvalue, h⟩ := Option.map_eq_some_iff.1 h
    obtain ⟨rfl, -⟩ := Prod.mk.inj h
    obtain ⟨hle, hvalue⟩ := Option.ite_none_right_eq_some.1 hvalue
    obtain ⟨rfl, -⟩ := Prod.mk.inj (Option.some.inj hvalue)
    rw [List.length_take]
    exact Nat.lt_of_le_of_lt (Nat.min_le_left ..) (readN_lt hn)

theorem encodePair_ne_nil : encodePair p ≠ [] := by
  simp [encodePair, packC]

/-- What is written is read as the same pairs exactly if the lengths of the
    values fit into four bytes. -/
theorem properties_flatMap_iff (h : ShortKeys pairs) :
    properties (pairs.flatMap encodePair) = some pairs ↔ ShortValues pairs := by
  constructor
  · exact forall_of_readAll fun _ _ _ => readProperty_lt
  · intro hvalues
    exact readAll_flatMap (fun _ _ => encodePair_ne_nil) fun p hp _ =>
      readProperty_encodePair (h p hp) (hvalues p hp)

/-- For metadata of pairs of strings: with a key longer than 255 bytes, an
    `ArgumentError` is raised and nothing is written. Otherwise one frame is
    sent, which is read as the same pairs exactly if all the values are shorter
    than `2 ^ 32` bytes; so the frames of such pairs differ if the pairs do. -/
theorem metadata_read_iff (metadata : Value) (pairs : List (Bytes × Bytes)) :
    (¬ShortKeys pairs → ∀ z, sendMetadata { metadata with each := some (.strings pairs) } z =
      (.error (.argumentError "metadata keys can only be 8 bit long"), z)) ∧
    (ShortKeys pairs → ∃ frame,
      (∀ z, sendMetadata { metadata with each := some (.strings pairs) } z =
        send (.str frame) 0 z) ∧
      (properties frame = some pairs ↔ ShortValues pairs)) ∧
    ∀ pairs', ShortKeys pairs → ShortValues pairs → ShortKeys pairs' → ShortValues pairs' →
      encodeMeta (.strings pairs) = encodeMeta (.strings pairs') → pairs = pairs' := by
  refine ⟨fun hlong z => ?_, fun hkeys => ?_, fun pairs' hkeys hvalues hkeys' hvalues' heq => ?_⟩
  · simp only [sendMetadata, encodeMeta_strings_long hlong]
    rfl
  · refine ⟨pairs.flatMap encodePair, fun z => ?_, properties_flatMap_iff hkeys⟩
    simp only [sendMetadata, encodeMeta_strings hkeys]
    rfl
  · rw [encodeMeta_strings hkeys, encodeMeta_strings hkeys'] at heq
    have hread := (properties_flatMap_iff hkeys).2 hvalues
    rw [Except.ok.inj heq, (properties_flatMap_iff hkeys').2 hvalues'] at hread
    exact (Option.some.inj hread).symm

end Zap

end MrubyZmq

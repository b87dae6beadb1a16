import PackStream.Proofs.Encoding.Congruence
import PackStream.Proofs.Encoding.Offence
import PackStream.Proofs.Truncation

/-!
# The four formats

Lengths in full or as their low byte, signatures after the header or before it: a value that can be
written in one of these four formats can be written in all. Moving signatures never changes the
length of the encoding, and changes nothing where there are no structures. Writing only low bytes
saves one byte for every size of the 16-bit class and three for every size of the 32-bit class, so
it changes nothing exactly if there are no such sizes.

Main statement: `Value.exists_outputs_of_toBytes`.
-/

set_option autoImplicit false

namespace PackStream

/-- A byte is lost for every size of the 16-bit class, and three for every size above. -/
theorem SizedNode.totalLost_eq (nodes : List SizedNode) :
    totalLost nodes = nodes.countP (fun node => 256 ≤ node.size ∧ node.size ≤ 65535) +
      3 * nodes.countP (fun node => 65536 ≤ node.size) := by
  induction nodes with
  | nil => rfl
  | cons node nodes ih =>
    have own : node.lost = (if 256 ≤ node.size ∧ node.size ≤ 65535 then 1 else 0) +
        3 * (if 65536 ≤ node.size then 1 else 0) := by
      unfold lost
      by_cases byte : node.size ≤ 255
      · rw [if_pos byte, if_neg (by omega), if_neg (by omega)]
      by_cases word : node.size ≤ 65535
      · rw [if_neg byte, if_pos word, if_pos (by omega), if_neg (by omega)]
      · rw [if_neg byte, if_neg word, if_neg (by omega), if_pos (by omega)]
    simp only [totalLost, ih, own, List.countP_cons, decide_eq_true_eq]
    omega

namespace Value

/-- What is encoded under some options is encoded under all with the same depth limit. -/
theorem toBytes_eq_of_toBytes {options options' : Options} {v : Value} {bs : Bytes}
    (encoded : v.toBytes options = .ok bs) (same : options'.depthLimit = options.depthLimit) :
    v.toBytes options' = .ok (v.reference options') := by
  apply toBytes_of_raised encoded
  intro levels limited
  exact ⟨levels, same ▸ limited, Nat.le_refl levels⟩

/-- Let a value be encoded in some format. Then it is encoded in all of them; the outputs differ in
length only by what low bytes leave out, they are the same in both layouts if there is no structure,
and the same with both ways to write lengths exactly if none takes more than a byte. -/
theorem exists_outputs_of_toBytes {v : Value} {depthLimit : Option Nat}
    (encodes : ∃ lengths signature bs, v.toBytes { lengths, signature, depthLimit } = .ok bs) :
    let n16 := (v.sizedNodes 0).countP fun node => 256 ≤ node.size ∧ node.size ≤ 65535
    let n32 := (v.sizedNodes 0).countP fun node => 65536 ≤ node.size
    ∃ out : LengthForm → SignaturePlace → Bytes,
      (∀ lengths signature,
        v.toBytes { lengths, signature, depthLimit } = .ok (out lengths signature)) ∧
      (∀ place place', (out .lowByte place).length + (n16 + 3 * n32) = (out .full place').length) ∧
      (∀ lengths place place', (out lengths place).length = (out lengths place').length) ∧
      (v.StructFree → ∀ lengths place place', out lengths place = out lengths place') ∧
      ∀ place, out .lowByte place = out .full place ↔ n16 = 0 ∧ n32 = 0 := by
  intro n16 n32
  let out (lengths : LengthForm) (signature : SignaturePlace) : Bytes :=
    v.reference { lengths, signature, depthLimit }
  have saved (place place' : SignaturePlace) :
      (out .lowByte place).length + (n16 + 3 * n32) = (out .full place').length := by
    rw [← SizedNode.totalLost_eq]
    exact length_reference_lowByte rfl rfl 0 v
  obtain ⟨_, _, _, encoded⟩ := encodes
  refine ⟨out, fun _ _ => toBytes_eq_of_toBytes encoded rfl, saved, ?_, ?_, ?_⟩
  · intro lengths place place'
    have same := saved place place
    have moved := saved place place'
    have moved' := saved place' place
    cases lengths with
    | full => omega
    | lowByte => omega
  · intro free lengths place place'
    exact free.reference_eq rfl
  · intro place
    constructor
    · intro same
      have lengths := congrArg List.length same
      have lost := saved place place
      omega
    · rintro ⟨no16, no32⟩
      refine reference_eq_of_small ?_ rfl
      intro node mem
      have short := List.countP_eq_zero.1 no16 node mem
      have short' := List.countP_eq_zero.1 no32 node mem
      simp only [decide_eq_true_eq] at short short'
      omega

/-- One size of the 16-bit class and one of the 32-bit class, in a structure. -/
theorem exists_outputs_of_toBytes_longLists :
    let v : Value :=
      .struct 0x4E [.list (List.replicate 65536 .null), .list (List.replicate 256 .null)]
    (∃ lengths signature bs, v.toBytes { lengths, signature } = .ok bs) ∧
      ∃ out : LengthForm → SignaturePlace → Bytes,
        (∀ lengths signature, v.toBytes { lengths, signature } = .ok (out lengths signature)) ∧
        (∀ place place', (out .lowByte place).length + 4 = (out .full place').length) ∧
        (∀ lengths place place', (out lengths place).length = (out lengths place').length) ∧
        ∀ place, out .lowByte place ≠ out .full place := by
  intro v
  have items (n : Nat) : sizedNodesItems 2 (List.replicate n .null) = [] := by
    simp [sizedNodesItems_eq_flatMap, sizedNodes]
  have nodes : v.sizedNodes 0 = [⟨.struct, 2, 0⟩, ⟨.list, 65536, 1⟩, ⟨.list, 256, 1⟩] := by
    simp [v, sizedNodes, sizedNodesItems, items, -List.reduceReplicate]
  have encodes : ∃ lengths signature bs, v.toBytes { lengths, signature } = .ok bs :=
    ⟨.full, .afterHeader, _, by rw [toBytes_eq_reference, nodes]; rfl⟩
  obtain ⟨out, encoded, saved, moved, -, same⟩ := exists_outputs_of_toBytes encodes
  rw [nodes] at saved same
  refine ⟨encodes, out, encoded, saved, moved, ?_⟩
  intro place equal
  exact absurd ((same place).1 equal).1 (by decide)

end Value

end PackStream

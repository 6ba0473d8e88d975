import Mathlib.Data.List.Basic
import Mathlib.Data.Nat.Notation

/-! Length-prefixed framing. A content is sent as pieces, each after its length in four bytes with
the high byte first, and ends with the length zero. A stream of this form has one reading. -/
namespace PdfBridge
namespace Framing

abbrev Bytes := List UInt8

/-- The lengths that four bytes can hold are below this bound. -/
def lengthBound : ℕ := 4294967296

/-- `struct.pack("!I", n)`. -/
def pack (n : ℕ) : Bytes :=
  [UInt8.ofNat (n / 16777216),UInt8.ofNat (n / 65536),UInt8.ofNat (n / 256),UInt8.ofNat n]

/-- The stream of a content that is sent in these pieces. -/
def frames (pieces : List Bytes) : Bytes :=
  pieces.flatMap (fun piece => pack piece.length ++ piece) ++ pack 0

/-- A receiver of the stream reads this content. -/
inductive Reads : Bytes → Bytes → Prop
  | stop : Reads (pack 0) []
  | piece {piece wire content : Bytes} (hne : piece ≠ []) (hlength : piece.length < lengthBound)
      (h : Reads wire content) : Reads (pack piece.length ++ piece ++ wire) (piece ++ content)

theorem pack_injective {m n : ℕ} (hm : m < lengthBound) (hn : n < lengthBound) (h : pack m = pack n) :
    m = n := by
  unfold lengthBound at hm hn
  simp only [pack, List.cons.injEq, and_true] at h
  obtain ⟨h₁,h₂,h₃,h₄⟩ := h
  have h₁ := congrArg UInt8.toNat h₁
  have h₂ := congrArg UInt8.toNat h₂
  have h₃ := congrArg UInt8.toNat h₃
  have h₄ := congrArg UInt8.toNat h₄
  simp only [UInt8.toNat_ofNat'] at h₁ h₂ h₃ h₄
  omega

/-- The pieces of a content are read back as the content. -/
theorem reads_frames {pieces : List Bytes}
    (h : ∀ piece ∈ pieces, piece ≠ [] ∧ piece.length < lengthBound) :
    Reads (frames pieces) pieces.flatten := by
  induction pieces with
  | nil => exact Reads.stop
  | cons piece pieces ih =>
    obtain ⟨hne,hlength⟩ := h piece (List.mem_cons_self ..)
    have hrest := ih fun p hp => h p (List.mem_cons_of_mem piece hp)
    have hframes : frames (piece :: pieces) = pack piece.length ++ piece ++ frames pieces := by
      simp [frames]
    rw [hframes, List.flatten_cons]
    exact Reads.piece hne hlength hrest

/-- No stream can be read in two ways. -/
theorem Reads.unique {wire content content' : Bytes} (h : Reads wire content)
    (h' : Reads wire content') : content = content' := by
  induction h generalizing content' with
  | stop =>
    generalize hwire : pack 0 = wire at h'
    cases h' with
    | stop => rfl
    | piece hne hlength h =>
      rw [List.append_assoc, ← List.append_nil (pack 0)] at hwire
      have hlen := pack_injective (by decide) hlength (List.append_inj hwire rfl).1
      exact absurd (List.length_eq_zero_iff.1 hlen.symm) hne
  | @piece p wire content hne hlength h ih =>
    generalize hwire : pack p.length ++ p ++ wire = wire' at h'
    cases h' with
    | stop =>
      rw [List.append_assoc, ← List.append_nil (pack 0)] at hwire
      have hlen := pack_injective hlength (by decide) (List.append_inj hwire rfl).1
      exact absurd (List.length_eq_zero_iff.1 hlen) hne
    | @piece p' wire'' content'' hne' hlength' h'' =>
      rw [List.append_assoc, List.append_assoc] at hwire
      obtain ⟨hpack,hrest⟩ := List.append_inj hwire rfl
      obtain ⟨hp,hw⟩ := List.append_inj hrest (pack_injective hlength hlength' hpack)
      subst hp hw
      rw [ih h'']

end Framing
end PdfBridge

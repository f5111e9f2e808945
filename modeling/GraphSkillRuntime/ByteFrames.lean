import Mathlib.Algebra.Ring.Nat
import Mathlib.Data.List.TakeWhile
import Mathlib.Tactic.SplitIfs

namespace GraphSkillRuntime.ByteFrames

def encode (s : String) : List UInt8 := s.toList.flatMap String.utf8EncodeChar

theorem toByteArray_encode (s : String) : (encode s).toByteArray = s.toByteArray := by
  rw [← String.utf8Encode_toList]
  rfl

theorem encode_injective : Function.Injective encode := by
  intro s t h
  apply String.toByteArray_inj.mp
  rw [← toByteArray_encode s, ← toByteArray_encode t, h]

theorem ofNat_ne_zero {n : ℕ} (hpos : 0 < n) (hlt : n < 256) : (0 : UInt8) ≠ UInt8.ofNat n := by
  intro h
  have := congrArg UInt8.toNat h
  rw [UInt8.toNat_ofNat', Nat.mod_eq_of_lt hlt] at this
  simp at this
  omega

theorem zero_notMem_utf8EncodeChar {c : Char} (hc : c ≠ '\x00') : 0 ∉ String.utf8EncodeChar c := by
  have hv : c.val.toNat ≠ 0 := fun h => hc (Char.ext (UInt32.toNat_inj.mp h))
  unfold String.utf8EncodeChar
  dsimp only
  split_ifs with h1 h2 h3 <;> simp only [List.mem_cons, List.not_mem_nil, or_false, not_or]
  · exact ofNat_ne_zero (by omega) (by omega)
  · exact ⟨ofNat_ne_zero (by omega) (by omega), ofNat_ne_zero (by omega) (by omega)⟩
  · exact ⟨ofNat_ne_zero (by omega) (by omega), ofNat_ne_zero (by omega) (by omega),
      ofNat_ne_zero (by omega) (by omega)⟩
  · exact ⟨ofNat_ne_zero (by omega) (by omega), ofNat_ne_zero (by omega) (by omega),
      ofNat_ne_zero (by omega) (by omega), ofNat_ne_zero (by omega) (by omega)⟩

theorem zero_notMem_encode {s : String} (hs : '\x00' ∉ s.toList) : 0 ∉ encode s := by
  intro h
  obtain ⟨c, hc, h0⟩ := List.mem_flatMap.mp h
  apply zero_notMem_utf8EncodeChar _ h0
  rintro rfl
  exact hs hc

theorem encode_length_le (s : String) : (encode s).length ≤ 4 * s.length := by
  rw [encode, ← String.length_toList]
  induction s.toList with
  | nil => simp
  | cons c cs ih =>
    rw [List.flatMap_cons, List.length_append, String.length_utf8EncodeChar, List.length_cons]
    have := c.utf8Size_le_four
    omega

def bigEndian : ℕ → ℕ → List UInt8
  | 0, _ => []
  | w + 1, n => UInt8.ofNat (n / 256 ^ w) :: bigEndian w (n % 256 ^ w)

@[simp] theorem length_bigEndian (w n : ℕ) : (bigEndian w n).length = w := by
  induction w generalizing n with
  | zero => rfl
  | succ w ih => simp [bigEndian, ih]

theorem bigEndian_injective {w m n : ℕ} (hm : m < 256 ^ w) (hn : n < 256 ^ w) (h : bigEndian w m = bigEndian w n) :
    m = n := by
  induction w generalizing m n with
  | zero => omega
  | succ w ih =>
    obtain ⟨hhead, htail⟩ := List.cons.inj h
    have hpos : 0 < 256 ^ w := Nat.pow_pos (by omega)
    have hm' : m / 256 ^ w < 256 := Nat.div_lt_of_lt_mul (by rwa [pow_succ] at hm)
    have hn' : n / 256 ^ w < 256 := Nat.div_lt_of_lt_mul (by rwa [pow_succ] at hn)
    have hdiv : m / 256 ^ w = n / 256 ^ w := by
      have := congrArg UInt8.toNat hhead
      rwa [UInt8.toNat_ofNat', UInt8.toNat_ofNat', Nat.mod_eq_of_lt hm', Nat.mod_eq_of_lt hn'] at this
    have hmod := ih (Nat.mod_lt m hpos) (Nat.mod_lt n hpos) htail
    rw [← Nat.div_add_mod m (256 ^ w), ← Nat.div_add_mod n (256 ^ w), hdiv, hmod]

theorem bigEndian_head {w n : ℕ} (hn : n < 256 ^ w) : ∃ tail, bigEndian (w + 1) n = 0 :: tail := by
  refine ⟨_, congrArg₂ List.cons ?_ rfl⟩
  rw [Nat.div_eq_of_lt hn]
  rfl

/-- A name, the length of the content in eight bytes, and the content. The name's length is not written. -/
def frame (f : List UInt8 × List UInt8) : List UInt8 := f.1 ++ (bigEndian 8 f.2.length ++ f.2)

/-- What makes a frame readable from the left: no zero in the name, and a content short enough that its length
starts with a zero byte. -/
def Readable (f : List UInt8 × List UInt8) : Prop := 0 ∉ f.1 ∧ f.2.length < 256 ^ 7

theorem frame_ne_nil (f : List UInt8 × List UInt8) : frame f ≠ [] := by
  intro h
  have := congrArg List.length h
  simp [frame] at this

theorem name_of_append {a b x y : List UInt8} (ha : 0 ∉ a) (hb : 0 ∉ b) (h : a ++ 0 :: x = b ++ 0 :: y) : a = b := by
  induction a generalizing b with
  | nil =>
    cases b with
    | nil => rfl
    | cons c b => exact absurd (List.cons.inj h).1 (fun h0 => hb (h0 ▸ List.mem_cons_self))
  | cons c a ih =>
    cases b with
    | nil => exact absurd (List.cons.inj h).1.symm (fun h0 => ha (h0 ▸ List.mem_cons_self))
    | cons d b =>
      obtain ⟨rfl, htail⟩ := List.cons.inj h
      rw [ih (List.not_mem_of_not_mem_cons ha) (List.not_mem_of_not_mem_cons hb) htail]

theorem frame_append {f g : List UInt8 × List UInt8} {x y : List UInt8} (hf : Readable f) (hg : Readable g)
    (h : frame f ++ x = frame g ++ y) : f = g ∧ x = y := by
  obtain ⟨tf, htf⟩ := bigEndian_head hf.2
  obtain ⟨tg, htg⟩ := bigEndian_head hg.2
  simp only [frame, List.append_assoc] at h
  have hname : f.1 = g.1 := by
    apply name_of_append hf.1 hg.1 (x := tf ++ (f.2 ++ x)) (y := tg ++ (g.2 ++ y))
    simpa [htf, htg] using h
  rw [hname] at h
  obtain ⟨hlength, hrest⟩ := List.append_inj (List.append_cancel_left h) (by simp)
  have hf8 : f.2.length < 256 ^ 8 := lt_trans hf.2 (by decide)
  have hg8 : g.2.length < 256 ^ 8 := lt_trans hg.2 (by decide)
  obtain ⟨hcontent, hxy⟩ := List.append_inj hrest (bigEndian_injective hf8 hg8 hlength)
  exact ⟨Prod.ext hname hcontent, hxy⟩

theorem frames_injective {fs gs : List (List UInt8 × List UInt8)} (hf : ∀ f ∈ fs, Readable f)
    (hg : ∀ g ∈ gs, Readable g)
    (h : fs.flatMap frame = gs.flatMap frame) : fs = gs := by
  induction fs generalizing gs with
  | nil =>
    cases gs with
    | nil => rfl
    | cons g gs =>
      rw [List.flatMap_nil, List.flatMap_cons] at h
      exact absurd (List.append_eq_nil_iff.mp h.symm).1 (frame_ne_nil g)
  | cons f fs ih =>
    cases gs with
    | nil =>
      rw [List.flatMap_nil, List.flatMap_cons] at h
      exact absurd (List.append_eq_nil_iff.mp h).1 (frame_ne_nil f)
    | cons g gs =>
      rw [List.flatMap_cons, List.flatMap_cons] at h
      obtain ⟨rfl, hrest⟩ := frame_append (hf f List.mem_cons_self) (hg g List.mem_cons_self) h
      rw [ih (fun f hf' => hf f (List.mem_cons_of_mem _ hf')) (fun g hg' => hg g (List.mem_cons_of_mem _ hg')) hrest]

end GraphSkillRuntime.ByteFrames

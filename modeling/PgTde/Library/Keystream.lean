import PgTde.Library.Memory

-- A stream cipher, given by its keystream: the byte at position `p` of the stream is XORed into the
-- data byte at position `p`.
abbrev Keystream := Nat → UInt8

namespace Keystream

variable {k : Keystream} {p q r w a n x : Nat} {bs cs : List UInt8}

-- Masking a byte makes up for another byte of the keystream.
theorem mask_xor_eq_iff {b f k₁ k₂ : UInt8} : (b ^^^ f) ^^^ k₂ = b ^^^ k₁ ↔ f = k₁ ^^^ k₂ := by
  rw [UInt8.xor_assoc, UInt8.xor_right_inj]
  constructor
  case mp  => intro h; rw [←h, UInt8.xor_assoc, UInt8.xor_self, UInt8.xor_zero]
  case mpr => intro h; rw [h, UInt8.xor_assoc, UInt8.xor_self, UInt8.xor_zero]

theorem mask_eq_self_iff {b f : UInt8} : b ^^^ f = b ↔ f = 0 where
  mp h  := UInt8.xor_right_inj b |>.mp <| h.trans UInt8.xor_zero.symm
  mpr h := by rw [h, UInt8.xor_zero]

def xor (k : Keystream) (p : Nat) (bs : List UInt8) : List UInt8 :=
  bs.mapIdx fun i b => b ^^^ k (p + i)

@[simp]
theorem length_xor : (k.xor p bs).length = bs.length := by
  simp [xor]

@[simp]
theorem getElem_xor {i : Nat} (h : i < (k.xor p bs).length) :
    (k.xor p bs)[i] = bs.get ⟨i, by simpa using h⟩ ^^^ k (p + i) := by
  simp [xor]

@[simp]
theorem xor_nil : k.xor p [] = [] :=
  rfl

theorem xor_append : k.xor p (bs ++ cs) = k.xor p bs ++ k.xor (p + bs.length) cs := by
  simp only [xor, List.mapIdx_append]
  congr! 3
  rw [Nat.add_assoc, Nat.add_comm bs.length]

theorem xor_of_zero (h : ∀ i < bs.length, k (p + i) = 0) : k.xor p bs = bs := by
  apply List.ext_getElem (by simp)
  intro i _ hi
  rw [getElem_xor, h i hi, UInt8.xor_zero, List.get_eq_getElem]

-- Encryption and decryption are the same operation.
theorem xor_xor : k.xor p (k.xor p bs) = bs := by
  apply List.ext_getElem (by simp)
  intro i _ _
  simp only [getElem_xor, List.get_eq_getElem, UInt8.xor_assoc, UInt8.xor_self, UInt8.xor_zero]

theorem xor_eq_xor_iff (h : bs.length = cs.length) :
    k.xor p bs = k.xor q cs ↔
    ∀ i (hi : i < bs.length), bs[i] ^^^ k (p + i) = cs.get ⟨i, h ▸ hi⟩ ^^^ k (q + i) where
  mp he i hi := by
    have he : (k.xor p bs)[i]? = (k.xor q cs)[i]? := by rw [he]
    simpa [xor, hi, h ▸ hi] using he
  mpr hb := by
    apply List.ext_getElem (by simpa using h)
    intro i hi _
    simpa using hb i (by simpa using hi)

-- Two keystreams that have the same effect on some data agree at its bytes.
theorem xor_eq_iff {l : Keystream} :
    k.xor p bs = l.xor q bs ↔ ∀ i < bs.length, k (p + i) = l (q + i) where
  mp he i hi := by
    have he : (k.xor p bs)[i]? = (l.xor q bs)[i]? := by rw [he]
    simpa [xor, hi] using he
  mpr h      := by
    apply List.ext_getElem (by simp)
    intro i hi _
    simpa using h i (by simpa using hi)

theorem xor_eq_self_iff : k.xor p bs = bs ↔ ∀ i < bs.length, k (p + i) = 0 := by
  have h : xor (fun _ => 0) 0 bs = bs := xor_of_zero fun _ _ => rfl
  conv => lhs; rhs; rw [←h]
  exact xor_eq_iff

-- The change that re-encrypting the `n` bytes at address `a` makes, where their stream position moves
-- from `r` to `w`.
def window (k : Keystream) (r w a n : Nat) : Nat → UInt8 :=
  fun x => if a ≤ x ∧ x < a + n then k (r + (x - a)) ^^^ k (w + (x - a)) else 0

theorem window_of_lt (h : x < a) : k.window r w a n x = 0 := by
  simp [window, Nat.not_le.mpr h]

theorem window_of_ge (h : a + n ≤ x) : k.window r w a n x = 0 := by
  simp [window, Nat.not_lt.mpr h]

theorem window_add {i : Nat} (h : i < n) : k.window r w a n (a + i) = k (r + i) ^^^ k (w + i) := by
  simp [window, h]

@[simp]
theorem window_same : k.window r r a n x = 0 := by
  simp [window]

-- Decrypting at position `r` and encrypting the result at position `w`, in place.
theorem write_reencrypt {m : Memory} :
    m.write a (k.xor w (k.xor r (m.read a n))) = m.mask (k.window r w a n) := by
  apply Memory.write_eq_mask
  case h  =>
    intro i hi
    rw [window_add (by simpa using hi)]
    simp [UInt8.xor_assoc]
  case hf =>
    simp only [length_xor, Memory.length_read]
    rintro x (hx | hx)
    · exact window_of_lt hx
    · exact window_of_ge hx

-- The combined effect of a list of masks.
def total (fs : List (Nat → UInt8)) : Nat → UInt8 :=
  fun x => fs.foldr (fun f b => f x ^^^ b) 0

@[simp]
theorem total_nil : total [] x = 0 :=
  rfl

@[simp]
theorem total_cons {f : Nat → UInt8} {fs : List (Nat → UInt8)} :
    total (f :: fs) x = f x ^^^ total fs x :=
  rfl

theorem total_append {fs gs : List (Nat → UInt8)} :
    total (fs ++ gs) x = total fs x ^^^ total gs x := by
  induction fs
  case nil       => simp
  case cons hi   => simp [hi, UInt8.xor_assoc]

theorem total_eq_zero {fs : List (Nat → UInt8)} (h : ∀ f ∈ fs, f x = 0) : total fs x = 0 := by
  induction fs
  case nil          => rfl
  case cons f fs hi => simp [h f (by simp), hi fun g hg => h g (by simp [hg])]

-- Masks that do not overlap do not make up for each other.
theorem total_eq_zero_iff {fs : List (Nat → UInt8)}
    (hd : fs.Pairwise fun f g => ∀ x, f x = 0 ∨ g x = 0) :
    (∀ x, total fs x = 0) ↔ ∀ f ∈ fs, ∀ x, f x = 0 where
  mpr h x := total_eq_zero fun f hf => h f hf x
  mp h    := by
    induction fs
    case nil          => simp
    case cons f fs hi =>
      obtain ⟨hf, hd⟩ := List.pairwise_cons.mp hd
      have hx : ∀ x, f x = 0 := by
        intro x
        by_contra hx
        have ht : total fs x = 0 := total_eq_zero fun g hg => (hf g hg x).resolve_left hx
        simpa [ht, hx] using h x
      have ht : ∀ x, total fs x = 0 := by
        intro x
        simpa [hx x] using h x
      exact List.forall_mem_cons.mpr ⟨hx, hi hd ht⟩

end Keystream

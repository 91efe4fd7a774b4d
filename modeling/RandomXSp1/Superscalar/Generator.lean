import RandomXSp1.Draw
import RandomXSp1.Common

/-!
# The Blake2 generator

The source of randomness of `superscalar.rs`: a 64-byte buffer that is replaced by its own
Blake2b hash when a request does not fit its rest. The hash is a parameter. What draws from a
generator sees the two request functions only, the structure `Generator`.
-/

namespace RandomXSp1.Superscalar

/-- The two requests, as functions of the generator's state. -/
structure Generator (G : Type) where
  byte : G → U8 × G
  u32 : G → U32 × G

namespace Generator

variable {G : Type} (gen : Generator G)

def getByte : Draw G U8 := fun g => .ok (gen.byte g)

def getU32 : Draw G U32 := fun g => .ok (gen.u32 g)

end Generator

def blakeGenDataLen : ℕ := 64

/-- The buffer and the position of the next byte, never past its end. -/
structure Blake2Generator where
  index : ℕ
  data : Vector U8 blakeGenDataLen
  index_le : index ≤ blakeGenDataLen

namespace Blake2Generator

/-- The key is the first 60 seed bytes, zero-padded, and the nonce follows in little-endian
order. The buffer counts as used up. -/
def new (seed : List U8) (nonce : U32) : Blake2Generator where
  index := blakeGenDataLen
  data := Vector.ofFn fun i : Fin blakeGenDataLen =>
    if i.val < blakeGenDataLen - 4 then seed.getD i.val 0
    else (nonce >>> (8 * (i.val - (blakeGenDataLen - 4)))).setWidth 8
  index_le := le_rfl

variable (hash : Vector U8 blakeGenDataLen → Vector U8 blakeGenDataLen)

def checkData (g : Blake2Generator) (needed : ℕ) : Blake2Generator :=
  if g.index + needed > blakeGenDataLen then
    { index := 0, data := hash g.data, index_le := Nat.zero_le _ }
  else g

/-- After the check the request fits. -/
lemma checkData_index (g : Blake2Generator) {needed : ℕ} (h : needed ≤ blakeGenDataLen) :
    (g.checkData hash needed).index + needed ≤ blakeGenDataLen := by
  rw [checkData]
  split
  · show 0 + needed ≤ blakeGenDataLen
    omega
  · omega

def getByte (g : Blake2Generator) : U8 × Blake2Generator :=
  let g' := g.checkData hash 1
  have h : g'.index + 1 ≤ blakeGenDataLen := checkData_index hash g (by decide)
  (g'.data.get ⟨g'.index, h⟩, { g' with index := g'.index + 1, index_le := h })

def getU32 (g : Blake2Generator) : U32 × Blake2Generator :=
  let g' := g.checkData hash 4
  have h : g'.index + 4 ≤ blakeGenDataLen := checkData_index hash g (by decide)
  let byte (i : Fin 4) : U8 := g'.data.get ⟨g'.index + i, by omega⟩
  (byte 3 ++ byte 2 ++ byte 1 ++ byte 0, { g' with index := g'.index + 4, index_le := h })

def generator : Generator Blake2Generator where
  byte := getByte hash
  u32 := getU32 hash

end Blake2Generator

end RandomXSp1.Superscalar

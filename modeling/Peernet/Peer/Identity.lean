-- SUMMARY: `initPeerID` of `Peer ID.go` with the parts of btcec and math/big it calls, and the private key a restart loads from the text the first start saved.
import Peernet.Go.Hex
import Peernet.Peer.Registry
import Mathlib.Data.Nat.Digits

/-!
# The node's key pair

`initPeerID` makes the empty peer list and sets the node's key pair: from `config.PrivateKey`
when it is set, or from a new key, which it saves into the configuration. The curve arithmetic
of `ScalarBaseMult` is left abstract; the byte formats of `math/big` and btcec are modelled.

What the first start saves is `hex.EncodeToString(peerPublicKey.SerializeCompressed())`: the
compressed public key, not the private key. Every later start decodes it and hands its 33 bytes
to `PrivKeyFromBytes`, whose scalar `D` is their big-endian value: at least `2 * 256 ^ 32`,
above the group order, so it is never the key the first start generated
(`initPeerID_restart_key`).
-/

namespace Peernet

/-! ## math/big and btcec -/

/-- `big.Int.Bytes`: the big-endian bytes of `n`, with no leading zero byte. -/
def bigBytes (n : Nat) : List UInt8 :=
  ((Nat.digits 256 n).map UInt8.ofNat).reverse

/-- `big.Int.SetBytes`: the value of big-endian bytes. -/
def setBytes (buf : List UInt8) : Nat :=
  buf.foldl (fun n b => n * 256 + b.toNat) 0

/-- `ecdsa.PublicKey`: a point of the curve in affine coordinates. -/
structure PublicKey where
  x : Nat
  y : Nat
deriving DecidableEq, Repr

/-- `ecdsa.PrivateKey`: the scalar `D` and its public key. -/
structure PrivateKey where
  d : Nat
  publicKey : PublicKey
deriving DecidableEq, Repr

/-- The order `N` of the base point of secp256k1, `btcec.S256().N`. -/
def secp256k1N : Nat :=
  115792089237316195423570985008687907852837564279074904382605163141518161494337

/-- A key from `Secp256k1NewPrivateKey`: `ecdsa.GenerateKey` draws `D` in `[1, N)`. -/
structure GeneratedKey where
  key : PrivateKey
  d_pos : 0 < key.d
  d_lt : key.d < secp256k1N

/-- `pubkeyCompressed`, the format byte of a compressed key with an even `Y`. -/
def pubkeyCompressed : UInt8 := 0x2

/-- `paddedAppend`: `src` after `dst`, with zero bytes before it up to `size`. -/
def paddedAppend (size : Nat) (dst src : List UInt8) : List UInt8 :=
  dst ++ List.replicate (size - src.length) 0 ++ src

/-- `SerializeCompressed`: the format byte, with its low bit set for an odd `Y`, then `X` in
32 bytes. -/
def PublicKey.serializeCompressed (p : PublicKey) : List UInt8 :=
  paddedAppend 32 [if p.y % 2 = 1 then pubkeyCompressed ||| 0x1 else pubkeyCompressed]
    (bigBytes p.x)

/-- `PrivKeyFromBytes`: `D` is `SetBytes(pk)`, and the public key is `ScalarBaseMult(pk)`. -/
def privKeyFromBytes (scalarBaseMult : List UInt8 → PublicKey) (pk : List UInt8) :
    PrivateKey × PublicKey :=
  let priv : PrivateKey := ⟨setBytes pk, scalarBaseMult pk⟩
  (priv, priv.publicKey)

/-! ## initPeerID -/

/-- What `initPeerID` leaves: `config.PrivateKey` as it stands (and as `saveConfig` writes it),
the node's key pair and the new peer list. -/
structure PeerID (κ : Type) [DecidableEq κ] where
  configPrivateKey : List Char
  peerPrivateKey : PrivateKey
  peerPublicKey : PublicKey
  peerList : Peerlist κ

variable {κ : Type} [DecidableEq κ]

/-- `initPeerID` on the configured `PrivateKey` text; `newKey` is what `Secp256k1NewPrivateKey`
returns, `none` for its error. `none` is the process ending with `os.Exit(1)`. -/
def initPeerID (scalarBaseMult : List UInt8 → PublicKey) (newKey : Option GeneratedKey)
    (configPrivateKey : List Char) : Option (PeerID κ) :=
  if configPrivateKey.length > 0 then
    match Go.hex.decodeString configPrivateKey with
    | .ok configPK =>
      let (priv, pub) := privKeyFromBytes scalarBaseMult configPK
      some ⟨configPrivateKey, priv, pub, .empty⟩
    | .error _ => none
  else
    match newKey with
    | none => none
    | some key =>
      some ⟨Go.hex.encodeToString key.key.publicKey.serializeCompressed, key.key,
        key.key.publicKey, .empty⟩

/-! ## The value of a serialized key -/

theorem foldl_setBytes (buf : List UInt8) (n : Nat) :
    buf.foldl (fun n b => n * 256 + b.toNat) n = n * 256 ^ buf.length + setBytes buf := by
  induction buf generalizing n with
  | nil =>
    show n = n * 256 ^ 0 + 0
    rw [Nat.pow_zero, Nat.mul_one, Nat.add_zero]
  | cons b buf ih =>
    rw [List.foldl_cons, ih, show setBytes (b :: buf) = _ from ih (0 * 256 + b.toNat),
      List.length_cons, Nat.pow_succ]
    ring

theorem setBytes_cons (b : UInt8) (buf : List UInt8) :
    setBytes (b :: buf) = b.toNat * 256 ^ buf.length + setBytes buf := by
  rw [setBytes, List.foldl_cons, foldl_setBytes, Nat.zero_mul, Nat.zero_add]

/-- A compressed public key, read as one big-endian number, is at least `2 * 256 ^ 32`: its
format byte is `2` or `3`, and at least 32 bytes follow it. -/
theorem setBytes_serializeCompressed_ge (p : PublicKey) :
    2 * 256 ^ 32 ≤ setBytes p.serializeCompressed := by
  have hformat : 2 ≤ (if p.y % 2 = 1 then pubkeyCompressed ||| 0x1 else pubkeyCompressed).toNat := by
    split <;> decide
  have hlen : 32 ≤ (List.replicate (32 - (bigBytes p.x).length) (0 : UInt8) ++ bigBytes p.x).length := by
    simp only [List.length_append, List.length_replicate]
    omega
  rw [PublicKey.serializeCompressed, paddedAppend, List.append_assoc, List.singleton_append,
    setBytes_cons]
  calc 2 * 256 ^ 32
      ≤ 2 * 256 ^ (List.replicate (32 - (bigBytes p.x).length) (0 : UInt8) ++ bigBytes p.x).length :=
        Nat.mul_le_mul_left 2 (Nat.pow_le_pow_right (by decide) hlen)
    _ ≤ _ := Nat.le_add_right_of_le (Nat.mul_le_mul_right _ hformat)

theorem secp256k1N_lt : secp256k1N < 2 * 256 ^ 32 := by
  norm_num [secp256k1N]

/-- A restart does not restore the key the first start generated. From an empty
`config.PrivateKey`, the first start takes the generated key and saves the hex text of its
compressed public key; every later start, whatever `Secp256k1NewPrivateKey` would return,
decodes that text and loads the private scalar `D = SetBytes(SerializeCompressed(pub))`, which
is above the group order `N` and so differs from the generated `D`. -/
theorem initPeerID_restart_key (scalarBaseMult : List UInt8 → PublicKey) (key : GeneratedKey)
    (newKey : Option GeneratedKey) :
    ∃ id₁ id₂ : PeerID κ, initPeerID scalarBaseMult (some key) [] = some id₁ ∧
      id₁.peerPrivateKey = key.key ∧
      id₁.configPrivateKey = Go.hex.encodeToString key.key.publicKey.serializeCompressed ∧
      initPeerID scalarBaseMult newKey id₁.configPrivateKey = some id₂ ∧
      id₂.peerPrivateKey.d = setBytes key.key.publicKey.serializeCompressed ∧
      secp256k1N < id₂.peerPrivateKey.d ∧ id₂.peerPrivateKey ≠ key.key := by
  set ser := key.key.publicKey.serializeCompressed
  have hne : 0 < (Go.hex.encodeToString ser).length := by
    simp [ser, PublicKey.serializeCompressed, paddedAppend, Go.hex.encodeToString,
      Go.hex.encodeByte]
  have hd : secp256k1N < setBytes ser :=
    lt_of_lt_of_le secp256k1N_lt (setBytes_serializeCompressed_ge _)
  have hdec : Go.hex.decodeString (Go.hex.encodeToString ser) = .ok ser :=
    Go.hex.decode_encodeToString ser
  refine ⟨_, ⟨Go.hex.encodeToString ser, (privKeyFromBytes scalarBaseMult ser).1,
    (privKeyFromBytes scalarBaseMult ser).2, .empty⟩, rfl, rfl, rfl, ?_, rfl, hd, fun h => ?_⟩
  · simp only [initPeerID, if_pos hne, hdec]
  · have := key.d_lt
    rw [← h] at this
    exact absurd hd (Nat.lt_asymm this)

end Peernet

import Mathlib.Data.List.AList
import Mathlib.Data.BitVec
import ShadeIndexer.Lib.Hex

/-!
The flag bits and the signature set. The map of a set is an association list
without repeated keys. Its order stands for the iteration order of the hash
map, so a statement about every set is a statement about every such order.
-/

namespace ShadeIndexer.Bytecode

abbrev Flags := BitVec 32

def BYTECODE_HONEYPOT : Flags := 1 <<< 0
def BYTECODE_MINT_BACKDOOR : Flags := 1 <<< 1
def BYTECODE_FEE_ON_TRANSFER : Flags := 1 <<< 2
def BYTECODE_BLACKLIST : Flags := 1 <<< 3
def BYTECODE_PAUSABLE : Flags := 1 <<< 4
def BYTECODE_OWNERSHIP_TRAP : Flags := 1 <<< 5

structure KnownSignature where
  selector : String
  flag : Flags
  name : String
  deriving DecidableEq

structure SignatureSet where
  bySelector : AList (fun _ : List UInt8 => Flags × String)

abbrev Entry := Sigma fun _ : List UInt8 => Flags × String

inductive SignatureError where
  | io (message : String)
  | json (message : String)
  | hex (selector : String)
  deriving DecidableEq, Repr

namespace SignatureSet

def insertSignature (set : SignatureSet) (s : KnownSignature) :
    Except SignatureError SignatureSet :=
  match Lib.Hex.decodeChars (Lib.Hex.strip0x s.selector.toList) with
  | some bytes => .ok ⟨set.bySelector.insert bytes (s.flag, s.name)⟩
  | none => .error (.hex s.selector)

def tryFromIter (items : List KnownSignature) : Except SignatureError SignatureSet :=
  items.foldlM insertSignature ⟨∅⟩

def builtinItems : List KnownSignature :=
  [⟨"0xf9f92be4", BYTECODE_BLACKLIST, "blacklist(address)"⟩,
    ⟨"0x537df3b6", BYTECODE_BLACKLIST, "addToBlacklist(address)"⟩,
    ⟨"0x40c10f19", BYTECODE_MINT_BACKDOOR, "mint(address,uint256)"⟩,
    -- listed with no flag, only so that a contract without it can be detected
    ⟨"0xa9059cbb", 0, "transfer(address,uint256)"⟩,
    ⟨"0x8456cb59", BYTECODE_PAUSABLE, "pause()"⟩,
    ⟨"0xf2fde38b", BYTECODE_OWNERSHIP_TRAP, "transferOwnership(address)"⟩,
    ⟨"0xe43252d7", BYTECODE_FEE_ON_TRANSFER, "setFee(uint256)"⟩]

/-- `try_from_iter(items).expect(..)`; `builtin_parses` shows that the error
branch is never taken. -/
def builtin : SignatureSet := (tryFromIter builtinItems).toOption.getD ⟨∅⟩

theorem builtin_parses : tryFromIter builtinItems = .ok builtin := by
  have hok : (tryFromIter builtinItems).toOption.isSome = true := by decide
  cases hset : tryFromIter builtinItems with
  | ok set => simp [builtin, hset, Except.toOption]
  | error e =>
      rw [hset] at hok
      cases hok

end SignatureSet

end ShadeIndexer.Bytecode

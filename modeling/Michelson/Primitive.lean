/-!
# The primitives of Michelson

A primitive heads an application node of an expression. There are 157 of them in four classes:
section keywords, data constructors, type constructors and instructions. The spelling tells the
class: `pair` is a type, `Pair` a value and `PAIR` an instruction. In the binary form a primitive
is one byte, its tag; the tags are dense, from `0x00` to `0x9c`.

## Main definitions

* `Keyword`, `DataConstructor`, `TypeConstructor`, `Instruction`: the four classes
* `Primitive`: a primitive of any class
* `Primitive.tag`, `Primitive.name`: its binary tag and its spelling
* `Primitive.all`: every primitive, in the order of the tags
* `Primitive.ofTag?`, `Primitive.ofName?`: look-up by tag and by spelling
-/

namespace Michelson

/-- The section keywords of a script, and `constant`, the reference to a registered expression. -/
inductive Keyword where
  | parameter | storage | code | view | constant
  deriving DecidableEq, Repr

/-- The constructors that values are built with. -/
inductive DataConstructor where
  | false | elt | left | none | pair | right | some | true | unit | lambdaRec
  deriving DecidableEq, Repr

/-- The constructors that types are built with. -/
inductive TypeConstructor where
  | bool | contract | int | key | keyHash | lambda | list | map | bigMap | nat | option | or
  | pair | set | signature | string | bytes | mutez | timestamp | unit | operation | address
  | chainId | never | bls12381G1 | bls12381G2 | bls12381Fr | saplingState
  | saplingTransactionDeprecated | ticket | chest | chestKey | txRollupL2Address
  | saplingTransaction
  deriving DecidableEq, Repr

/-- The instructions of the stack machine. -/
inductive Instruction where
  | pack | unpack | blake2b | sha256 | sha512 | abs | add | amount | and | balance | car | cdr
  | checkSignature | compare | concat | cons | createAccount | createContract | implicitAccount
  | dip | drop | dup | ediv | emptyMap | emptySet | eq | exec | failwith | ge | get | gt
  | hashKey | ifBool | ifCons | ifLeft | ifNone | int | lambda | le | left | loop | lsl | lsr
  | lt | map | mem | mul | neg | neq | nil | none | not | now | or | pair | push | right | size
  | some | source | sender | self | stepsToQuota | sub | swap | transferTokens | setDelegate
  | unit | update | xor | iter | loopLeft | address | contract | isnat | cast | rename | slice
  | dig | dug | emptyBigMap | apply | chainId | level | selfAddress | never | unpair
  | votingPower | totalVotingPower | keccak | sha3 | pairingCheck | saplingEmptyState
  | saplingVerifyUpdate | ticketDeprecated | readTicket | splitTicket | joinTickets
  | getAndUpdate | openChest | view | subMutez | minBlockTime | emit | lambdaRec | ticket
  | bytes | nat
  deriving DecidableEq, Repr

/-- **A primitive** of any of the four classes. -/
inductive Primitive where
  | keyword (word : Keyword)
  | data (constructor : DataConstructor)
  | type (constructor : TypeConstructor)
  | instruction (instruction : Instruction)
  deriving DecidableEq, Repr

/-- The binary tag and the spelling of a keyword. -/
def Keyword.entry : Keyword → UInt8 × String
  | .parameter => (0x00, "parameter")
  | .storage => (0x01, "storage")
  | .code => (0x02, "code")
  | .view => (0x91, "view")
  | .constant => (0x92, "constant")

/-- The binary tag and the spelling of a data constructor. -/
def DataConstructor.entry : DataConstructor → UInt8 × String
  | .false => (0x03, "False")
  | .elt => (0x04, "Elt")
  | .left => (0x05, "Left")
  | .none => (0x06, "None")
  | .pair => (0x07, "Pair")
  | .right => (0x08, "Right")
  | .some => (0x09, "Some")
  | .true => (0x0a, "True")
  | .unit => (0x0b, "Unit")
  | .lambdaRec => (0x98, "Lambda_rec")

/-- The binary tag and the spelling of a type constructor. -/
def TypeConstructor.entry : TypeConstructor → UInt8 × String
  | .bool => (0x59, "bool")
  | .contract => (0x5a, "contract")
  | .int => (0x5b, "int")
  | .key => (0x5c, "key")
  | .keyHash => (0x5d, "key_hash")
  | .lambda => (0x5e, "lambda")
  | .list => (0x5f, "list")
  | .map => (0x60, "map")
  | .bigMap => (0x61, "big_map")
  | .nat => (0x62, "nat")
  | .option => (0x63, "option")
  | .or => (0x64, "or")
  | .pair => (0x65, "pair")
  | .set => (0x66, "set")
  | .signature => (0x67, "signature")
  | .string => (0x68, "string")
  | .bytes => (0x69, "bytes")
  | .mutez => (0x6a, "mutez")
  | .timestamp => (0x6b, "timestamp")
  | .unit => (0x6c, "unit")
  | .operation => (0x6d, "operation")
  | .address => (0x6e, "address")
  | .chainId => (0x74, "chain_id")
  | .never => (0x78, "never")
  | .bls12381G1 => (0x80, "bls12_381_g1")
  | .bls12381G2 => (0x81, "bls12_381_g2")
  | .bls12381Fr => (0x82, "bls12_381_fr")
  | .saplingState => (0x83, "sapling_state")
  | .saplingTransactionDeprecated => (0x84, "sapling_transaction_deprecated")
  | .ticket => (0x87, "ticket")
  | .chest => (0x8d, "chest")
  | .chestKey => (0x8e, "chest_key")
  | .txRollupL2Address => (0x94, "tx_rollup_l2_address")
  | .saplingTransaction => (0x96, "sapling_transaction")

/-- The binary tag and the spelling of an instruction. -/
def Instruction.entry : Instruction → UInt8 × String
  | .pack => (0x0c, "PACK")
  | .unpack => (0x0d, "UNPACK")
  | .blake2b => (0x0e, "BLAKE2B")
  | .sha256 => (0x0f, "SHA256")
  | .sha512 => (0x10, "SHA512")
  | .abs => (0x11, "ABS")
  | .add => (0x12, "ADD")
  | .amount => (0x13, "AMOUNT")
  | .and => (0x14, "AND")
  | .balance => (0x15, "BALANCE")
  | .car => (0x16, "CAR")
  | .cdr => (0x17, "CDR")
  | .checkSignature => (0x18, "CHECK_SIGNATURE")
  | .compare => (0x19, "COMPARE")
  | .concat => (0x1a, "CONCAT")
  | .cons => (0x1b, "CONS")
  | .createAccount => (0x1c, "CREATE_ACCOUNT")
  | .createContract => (0x1d, "CREATE_CONTRACT")
  | .implicitAccount => (0x1e, "IMPLICIT_ACCOUNT")
  | .dip => (0x1f, "DIP")
  | .drop => (0x20, "DROP")
  | .dup => (0x21, "DUP")
  | .ediv => (0x22, "EDIV")
  | .emptyMap => (0x23, "EMPTY_MAP")
  | .emptySet => (0x24, "EMPTY_SET")
  | .eq => (0x25, "EQ")
  | .exec => (0x26, "EXEC")
  | .failwith => (0x27, "FAILWITH")
  | .ge => (0x28, "GE")
  | .get => (0x29, "GET")
  | .gt => (0x2a, "GT")
  | .hashKey => (0x2b, "HASH_KEY")
  | .ifBool => (0x2c, "IF")
  | .ifCons => (0x2d, "IF_CONS")
  | .ifLeft => (0x2e, "IF_LEFT")
  | .ifNone => (0x2f, "IF_NONE")
  | .int => (0x30, "INT")
  | .lambda => (0x31, "LAMBDA")
  | .le => (0x32, "LE")
  | .left => (0x33, "LEFT")
  | .loop => (0x34, "LOOP")
  | .lsl => (0x35, "LSL")
  | .lsr => (0x36, "LSR")
  | .lt => (0x37, "LT")
  | .map => (0x38, "MAP")
  | .mem => (0x39, "MEM")
  | .mul => (0x3a, "MUL")
  | .neg => (0x3b, "NEG")
  | .neq => (0x3c, "NEQ")
  | .nil => (0x3d, "NIL")
  | .none => (0x3e, "NONE")
  | .not => (0x3f, "NOT")
  | .now => (0x40, "NOW")
  | .or => (0x41, "OR")
  | .pair => (0x42, "PAIR")
  | .push => (0x43, "PUSH")
  | .right => (0x44, "RIGHT")
  | .size => (0x45, "SIZE")
  | .some => (0x46, "SOME")
  | .source => (0x47, "SOURCE")
  | .sender => (0x48, "SENDER")
  | .self => (0x49, "SELF")
  | .stepsToQuota => (0x4a, "STEPS_TO_QUOTA")
  | .sub => (0x4b, "SUB")
  | .swap => (0x4c, "SWAP")
  | .transferTokens => (0x4d, "TRANSFER_TOKENS")
  | .setDelegate => (0x4e, "SET_DELEGATE")
  | .unit => (0x4f, "UNIT")
  | .update => (0x50, "UPDATE")
  | .xor => (0x51, "XOR")
  | .iter => (0x52, "ITER")
  | .loopLeft => (0x53, "LOOP_LEFT")
  | .address => (0x54, "ADDRESS")
  | .contract => (0x55, "CONTRACT")
  | .isnat => (0x56, "ISNAT")
  | .cast => (0x57, "CAST")
  | .rename => (0x58, "RENAME")
  | .slice => (0x6f, "SLICE")
  | .dig => (0x70, "DIG")
  | .dug => (0x71, "DUG")
  | .emptyBigMap => (0x72, "EMPTY_BIG_MAP")
  | .apply => (0x73, "APPLY")
  | .chainId => (0x75, "CHAIN_ID")
  | .level => (0x76, "LEVEL")
  | .selfAddress => (0x77, "SELF_ADDRESS")
  | .never => (0x79, "NEVER")
  | .unpair => (0x7a, "UNPAIR")
  | .votingPower => (0x7b, "VOTING_POWER")
  | .totalVotingPower => (0x7c, "TOTAL_VOTING_POWER")
  | .keccak => (0x7d, "KECCAK")
  | .sha3 => (0x7e, "SHA3")
  | .pairingCheck => (0x7f, "PAIRING_CHECK")
  | .saplingEmptyState => (0x85, "SAPLING_EMPTY_STATE")
  | .saplingVerifyUpdate => (0x86, "SAPLING_VERIFY_UPDATE")
  | .ticketDeprecated => (0x88, "TICKET_DEPRECATED")
  | .readTicket => (0x89, "READ_TICKET")
  | .splitTicket => (0x8a, "SPLIT_TICKET")
  | .joinTickets => (0x8b, "JOIN_TICKETS")
  | .getAndUpdate => (0x8c, "GET_AND_UPDATE")
  | .openChest => (0x8f, "OPEN_CHEST")
  | .view => (0x90, "VIEW")
  | .subMutez => (0x93, "SUB_MUTEZ")
  | .minBlockTime => (0x95, "MIN_BLOCK_TIME")
  | .emit => (0x97, "EMIT")
  | .lambdaRec => (0x99, "LAMBDA_REC")
  | .ticket => (0x9a, "TICKET")
  | .bytes => (0x9b, "BYTES")
  | .nat => (0x9c, "NAT")

namespace Primitive

/-- The binary tag and the spelling of a primitive. -/
def entry : Primitive → UInt8 × String
  | keyword word => word.entry
  | data constructor => constructor.entry
  | type constructor => constructor.entry
  | instruction i => i.entry

/-- The byte that stands for a primitive in the binary form. -/
def tag (p : Primitive) : UInt8 := p.entry.1

/-- The spelling of a primitive. -/
def name (p : Primitive) : String := p.entry.2

/-- Every primitive, in the order of the tags. -/
def all : List Primitive := [
  .keyword .parameter, .keyword .storage, .keyword .code, .data .false, .data .elt,
  .data .left, .data .none, .data .pair, .data .right, .data .some, .data .true, .data .unit,
  .instruction .pack, .instruction .unpack, .instruction .blake2b, .instruction .sha256,
  .instruction .sha512, .instruction .abs, .instruction .add, .instruction .amount,
  .instruction .and, .instruction .balance, .instruction .car, .instruction .cdr,
  .instruction .checkSignature, .instruction .compare, .instruction .concat,
  .instruction .cons, .instruction .createAccount, .instruction .createContract,
  .instruction .implicitAccount, .instruction .dip, .instruction .drop, .instruction .dup,
  .instruction .ediv, .instruction .emptyMap, .instruction .emptySet, .instruction .eq,
  .instruction .exec, .instruction .failwith, .instruction .ge, .instruction .get,
  .instruction .gt, .instruction .hashKey, .instruction .ifBool, .instruction .ifCons,
  .instruction .ifLeft, .instruction .ifNone, .instruction .int, .instruction .lambda,
  .instruction .le, .instruction .left, .instruction .loop, .instruction .lsl,
  .instruction .lsr, .instruction .lt, .instruction .map, .instruction .mem, .instruction .mul,
  .instruction .neg, .instruction .neq, .instruction .nil, .instruction .none,
  .instruction .not, .instruction .now, .instruction .or, .instruction .pair,
  .instruction .push, .instruction .right, .instruction .size, .instruction .some,
  .instruction .source, .instruction .sender, .instruction .self, .instruction .stepsToQuota,
  .instruction .sub, .instruction .swap, .instruction .transferTokens,
  .instruction .setDelegate, .instruction .unit, .instruction .update, .instruction .xor,
  .instruction .iter, .instruction .loopLeft, .instruction .address, .instruction .contract,
  .instruction .isnat, .instruction .cast, .instruction .rename, .type .bool, .type .contract,
  .type .int, .type .key, .type .keyHash, .type .lambda, .type .list, .type .map,
  .type .bigMap, .type .nat, .type .option, .type .or, .type .pair, .type .set,
  .type .signature, .type .string, .type .bytes, .type .mutez, .type .timestamp, .type .unit,
  .type .operation, .type .address, .instruction .slice, .instruction .dig, .instruction .dug,
  .instruction .emptyBigMap, .instruction .apply, .type .chainId, .instruction .chainId,
  .instruction .level, .instruction .selfAddress, .type .never, .instruction .never,
  .instruction .unpair, .instruction .votingPower, .instruction .totalVotingPower,
  .instruction .keccak, .instruction .sha3, .instruction .pairingCheck, .type .bls12381G1,
  .type .bls12381G2, .type .bls12381Fr, .type .saplingState,
  .type .saplingTransactionDeprecated, .instruction .saplingEmptyState,
  .instruction .saplingVerifyUpdate, .type .ticket, .instruction .ticketDeprecated,
  .instruction .readTicket, .instruction .splitTicket, .instruction .joinTickets,
  .instruction .getAndUpdate, .type .chest, .type .chestKey, .instruction .openChest,
  .instruction .view, .keyword .view, .keyword .constant, .instruction .subMutez,
  .type .txRollupL2Address, .instruction .minBlockTime, .type .saplingTransaction,
  .instruction .emit, .data .lambdaRec, .instruction .lambdaRec, .instruction .ticket,
  .instruction .bytes, .instruction .nat]

/-- The primitive with a given tag, if there is one. -/
def ofTag? (tag : UInt8) : Option Primitive := all[tag.toNat]?

/-- The primitive with a given spelling, if there is one. -/
def ofName? (name : String) : Option Primitive := all.find? (·.name == name)

/-- Whether a primitive is a section keyword or `constant`. -/
def isKeyword : Primitive → Bool
  | keyword _ => true
  | _ => false

/-- Whether a primitive is a data constructor. -/
def isData : Primitive → Bool
  | data _ => true
  | _ => false

/-- Whether a primitive is a type constructor. -/
def isType : Primitive → Bool
  | type _ => true
  | _ => false

/-- Whether a primitive is an instruction. -/
def isInstruction : Primitive → Bool
  | instruction _ => true
  | _ => false

/-- Each primitive stands in the list of all at its tag. -/
theorem all_getElem?_tag (p : Primitive) : all[p.tag.toNat]? = some p := by
  rcases p with w | c | c | i
  · cases w <;> rfl
  · cases c <;> rfl
  · cases c <;> rfl
  · cases i <;> rfl

@[simp] theorem ofTag?_tag (p : Primitive) : ofTag? p.tag = some p := all_getElem?_tag p

/-- Distinct primitives have distinct tags. -/
theorem tag_injective {p q : Primitive} (h : p.tag = q.tag) : p = q := by
  have := ofTag?_tag p
  rw [h, ofTag?_tag] at this
  exact (Option.some.inj this).symm

end Primitive

end Michelson

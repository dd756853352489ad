/-
  This file defines sample source texts: one that uses every
  form of definition, a small one for each form, and two
  families that grow as large or as deep as is wanted.

  Key definitions include:
    * `Sample.tokenContract`
    * `Sample.small`
    * `Sample.generatedModule`
    * `Sample.nestedBlocks`
-/

namespace FeSyntax

namespace Sample

------------------------------------------------------------
-- Fixed Samples
------------------------------------------------------------

/- Lines with a line feed behind each. -/
def ofLines
    (lines : List String) : String :=
  String.join (lines.map (fun line => line ++ "\n"))

/- A contract that uses every form of definition. -/
def tokenContract : String :=
  ofLines
  [ "// Minimal fungible token",
    "mod token \x7b",
    "    pub const DECIMALS: u8 = 18u8;",
    "    pub const NAME: u8 = \"Fe Token\";",
    "",
    "    pub type Balance = u128;",
    "",
    "    pub struct Account \x7b",
    "        pub owner: address,",
    "        balance: Balance",
    "    \x7d",
    "",
    "    pub struct Marker;",
    "",
    "    pub trait Transfer<T> \x7b",
    "        fn transfer(to: address, amount: &T) -> bool \x7b true \x7d",
    "    \x7d",
    "",
    "    impl Account for Transfer \x7b",
    "        pub fn transfer(to: address, amount: &Balance) -> bool \x7b",
    "            let ok: bool = true;",
    "            match ok \x7b",
    "                true => \x7b 1u8 \x7d;",
    "                _ => 0u8",
    "            \x7d;",
    "            ok",
    "        \x7d",
    "    \x7d",
    "\x7d",
    "",
    "/* entry point */",
    "pub fn main(ctx: &mut std::evm::Context) -> (bool, u64) \x7b",
    "    let mut total = 0x2a;",
    "    total",
    "\x7d" ]

/- Small texts that parse, with one definition each. -/
def small : List String :=
  [ "fn main() \x7b\x7d",
    "mod empty \x7b\x7d",
    "struct Unit;",
    "pub struct Point \x7b x: u64, y: u64 \x7d",
    "const MAX: u128 = 340282366920938463463374607431768211455;",
    "type Pair<A, B> = (A, B);",
    "pub trait Show \x7b fn show() \x7b\x7d \x7d",
    "impl Point \x7b fn origin() -> Point \x7b Point \x7d \x7d" ]

------------------------------------------------------------
-- Families Of Samples
------------------------------------------------------------

/- The function with number `n` of a generated module. -/
def generatedFunction
    (n : Nat) : String :=
  ofLines
  [ "    pub fn f" ++ toString n ++
      "(a: u64, b: &mut (bool, address)) -> u64 \x7b",
    "        let x: u64 = " ++ toString n ++ ";",
    "        match a \x7b Some(v) => v; _ => x \x7d",
    "    \x7d" ]

/- A module with `count` functions. -/
def generatedModule
    (count : Nat) : String :=
  "mod generated \x7b\n" ++
    String.join ((List.range count).map generatedFunction) ++
    "\x7d\n"

/- A function whose body nests `depth` blocks. -/
def nestedBlocks
    (depth : Nat) : String :=
  "fn f() " ++ String.ofList (List.replicate depth '\x7b') ++
    "1" ++ String.ofList (List.replicate depth '\x7d')

end Sample

end FeSyntax

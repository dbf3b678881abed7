import Mathlib.Data.Nat.Notation
import Mathlib.Tactic.Common

/-!
# The opcode table of the shader decoder

`translate` compares the 13-bit opcode of an instruction word with a chain of constants and
calls the handler of the first that is equal.  The chain is kept in its order, one row for
each run of arms with the same handler; an opcode repeated within a run is written once.
Opcodes of a later row may repeat an earlier row's, and are then never reached.
-/

set_option autoImplicit false

namespace Oboromi.Model.Sm86

/-- The handlers `translate` dispatches to.
SOURCE: core/src/gpu/sm86.rs:264-3800 -/
inductive Handler where
  | al2p | ald | arrives | ast | atom | atomg | atoms | b2r
  | bar | bitextract | bmma | bmov | bmsk | bpt | bra | break_
  | brev | brx | brxu | bssy | bsync | call | cctl | cctll
  | cctlt | clmad | cs2r | csmtest | dadd | depbar | dfma | dmma
  | dmul | dsetp | errbar | exit | f2f | f2fp | f2i | f2ip
  | fadd | fadd32i | fchk | ffma | ffma32i | flo | fmnmx | fmul
  | fmul32i | footprint | frnd | fsel | fset | fsetp | fswzadd | gather
  | genmetadata | getlmembase | hadd2 | hadd2_32i | hfma2 | hfma2_mma | hfma2_32i | hmma
  | hmnmx2 | hmul2 | hmul2_32i | hset2 | hsetp2 | i2f | i2fp | i2i
  | i2ip | iabs | iadd | iadd3 | iadd32i | ide | idp | idp4a
  | imad | imma | imnmx | imul | imul32i | ipa | isberd | isbewr
  | iscadd | iscadd32i | isetp | jmp | jmx | jmxu | kill | ld
  | ldc | ldg | ldgdepbar | ldgsts | ldl | lds | ldsm | ldtram
  | lea | lepc | lop | lop3 | lop32i | match_ | membar | mov
  | mov32i | movm | mufu | nanosleep | nanotrap | nop | out | p2r
  | pixld | plop3 | pmtrig | popc | prmt | psetp | qspc | r2b
  | r2p | r2ur | red | redux | ret | rpcmov | rtt | s2r
  | s2ur | scatter | sel | setctaid | setlmembase | sgxt | shf | shfl
  | shl | shr | spmetadata | st | stg | stl | sts | suatom
  | suld | suquery | sured | sust | tex | tld | tld4 | tmml
  | ttucctl | ttuclose | ttugo | ttuld | ttumacrofuse | ttuopen | ttust | txd
  | txq | ubmsk | ubrev | uclea | uf2fp | uflo | uiadd3 | uiadd3_64
  | uimad | uisetp | uldc | ulea | ulop | ulop3 | ulop32i | umov
  | up2ur | uplop3 | upopc | uprmt | upsetp | ur2up | usel | usgxt
  | ushf | ushl | ushr | vabsdiff | vabsdiff4 | vote | voteu | vote_vtg
  | warpsync | yield_
  deriving DecidableEq, Repr

/-- The arms of `translate`.
SOURCE: core/src/gpu/sm86_decoder_generated.rs:5-2550 -/
def arms : List (Handler × List ℕ) := [
  (.al2p, [0x920]),
  (.ald, [0x321, 0x1521]),
  (.arrives, [0x19b0]),
  (.ast, [0x322, 0x1522]),
  (.atom, [0x38a, 0x1f8a, 0x38b, 0x198a]),
  (.atomg, [0x3a8, 0x3a9, 0x19a8]),
  (.atoms, [0x38c, 0x1f8c, 0x38d, 0x198c]),
  (.b2r, [0x31c]),
  (.bar, [0xb1d, 0x91d, 0x51d, 0x31d]),
  (.bitextract, [0x241]),
  (.bmma, [0x23d]),
  (.bmov, [0x355, 0xf55, 0xb57, 0x1b57, 0x957, 0x357, 0x1d57, 0xb56, 0x1b56, 0x956, 0x356,
    0x1d56, 0xf56]),
  (.bmsk, [0xa1b, 0x1a1b, 0x21b, 0x1c1b, 0x81b]),
  (.bpt, [0x95c]),
  (.bra, [0x947, 0x1947, 0x1547]),
  (.break_, [0x942]),
  (.brev, [0xb01, 0x1b01, 0x301, 0x1d01, 0x901]),
  (.brx, [0x949]),
  (.brxu, [0x1958]),
  (.bssy, [0x945]),
  (.bsync, [0x941]),
  (.call, [0xb43, 0x943, 0x343, 0x1943, 0x944, 0x344, 0x1944]),
  (.cctl, [0x98f, 0x1d8f]),
  (.cctll, [0x990, 0x1d90]),
  (.cctlt, [0x391, 0x1d91, 0xb91]),
  (.clmad, [0xa2c, 0x1a2c, 0x62c, 0x162c, 0x22c, 0x1e2c, 0x1c2c]),
  (.cs2r, [0x805]),
  (.csmtest, [0x80d]),
  (.dadd, [0x629, 0x1629, 0x229, 0x1e29, 0x429]),
  (.depbar, [0x91a]),
  (.dfma, [0xa2b, 0x1a2b, 0x62b, 0x162b, 0x22b, 0x1e2b, 0x42b, 0x1c2b, 0x82b]),
  (.dmma, [0x23f]),
  (.dmul, [0xa28, 0x1a28, 0x228, 0x1c28, 0x828]),
  (.dsetp, [0x62a, 0x162a, 0x22a, 0x1e2a, 0x42a]),
  (.errbar, [0x9ab]),
  (.exit, [0x94d]),
  (.f2f, [0xb04, 0x1b04, 0x904, 0x304, 0x1d04, 0xb10, 0x1b10, 0x910, 0x310, 0x1d10]),
  (.f2fp, [0xa3e, 0x1a3e, 0x83e, 0x23e, 0x1c3e, 0x63e, 0x163e, 0x43e, 0x1e3e]),
  (.f2i, [0x1b11, 0xb11, 0x911, 0x311, 0x1d11, 0x1b05, 0xb05, 0x905, 0x305, 0x1d05]),
  (.f2ip, [0xa43, 0x1a43, 0x843, 0x643, 0x1643, 0x443, 0x243, 0x1e43, 0x1c43]),
  (.fadd, [0x621, 0x1621, 0x421, 0x221, 0x1e21]),
  (.fadd32i, [0x421]),
  (.fchk, [0xb02, 0x1b02, 0x902, 0x302, 0x1d02]),
  (.ffma, [0xa23, 0x1a23, 0x823, 0x623, 0x1623, 0x423, 0x223, 0x1e23, 0x1c23]),
  (.ffma32i, [0x823]),
  (.flo, [0xb00, 0x1b00, 0x300, 0x1d00, 0x900]),
  (.fmnmx, [0xa09, 0x1a09, 0x809, 0x209, 0x1c09]),
  (.fmul, [0xa20, 0x1a20, 0x820, 0x220, 0x1c20]),
  (.fmul32i, [0x820]),
  (.footprint, [0xb72, 0x373, 0xb74, 0x1f74]),
  (.frnd, [0xb07, 0x1b07, 0x907, 0x307, 0x1d07, 0xb13, 0x1b13, 0x913, 0x313, 0x1d13]),
  (.fsel, [0xa08, 0x1a08, 0x808, 0x208, 0x1c08]),
  (.fset, [0xa0a, 0x1a0a, 0x80a, 0x20a, 0x1c0a]),
  (.fsetp, [0xa0b, 0x1a0b, 0x80b, 0x20b, 0x1c0b]),
  (.fswzadd, [0x822]),
  (.gather, [0x241]),
  (.genmetadata, [0x242]),
  (.getlmembase, [0x3c0]),
  (.hadd2, [0x630, 0x1630, 0x430, 0x230, 0x1e30]),
  (.hadd2_32i, [0x430]),
  (.hfma2, [0xa31, 0x1a31, 0x831, 0x631, 0x1631, 0x431, 0x231, 0x1e31, 0x1c31]),
  (.hfma2_mma, [0xa35, 0x1a35, 0x835, 0x635, 0x1635, 0x435, 0x235, 0x1e35, 0x1c35]),
  (.hfma2_32i, [0x831]),
  (.hmma, [0x23c, 0x1e79]),
  (.hmnmx2, [0xa40, 0x1a40, 0x840, 0x240, 0x1c40]),
  (.hmul2, [0xa32, 0x1a32, 0x832, 0x232, 0x1c32]),
  (.hmul2_32i, [0x832]),
  (.hset2, [0x633, 0x1633, 0x433, 0x233, 0x1e33]),
  (.hsetp2, [0x634, 0x1634, 0x434, 0x234, 0x1e34]),
  (.i2f, [0x1b12, 0xb12, 0x912, 0x312, 0x1d12, 0x1b06, 0xb06, 0x906, 0x306, 0x1d06]),
  (.i2fp, [0xa45, 0x1a45, 0x245, 0x1c45, 0x845]),
  (.i2i, [0xa38, 0x1a38, 0x238, 0x1c38, 0x838]),
  (.i2ip, [0xa39, 0x1a39, 0x239, 0x1c39, 0x839]),
  (.iabs, [0xa13, 0x1a13, 0x213, 0x1c13, 0x813]),
  (.iadd, [0x810, 0xa10, 0x1a10, 0x210, 0x1c10]),
  (.iadd3, [0x810, 0xa10, 0x1a10, 0x210, 0x1c10]),
  (.iadd32i, [0x810]),
  (.ide, [0x951]),
  (.idp, [0xa26, 0x1a26, 0x226, 0x1c26]),
  (.idp4a, [0xa26, 0x1a26, 0x226, 0x1c26]),
  (.imad, [0xa24, 0x1a24, 0x624, 0x1624, 0x224, 0x1e24, 0x424, 0x1c24, 0x824, 0xa27, 0x1a27,
    0x627, 0x1627, 0x227, 0x1e27, 0x1c27, 0x827, 0xa25, 0x1a25, 0x625, 0x1625, 0x225, 0x1e25,
    0x1c25, 0x825]),
  (.imma, [0x237]),
  (.imnmx, [0xa17, 0x1a17, 0x217, 0x1c17, 0x817]),
  (.imul, [0xa24, 0x1a24, 0x224, 0x1c24, 0x824, 0xa25, 0x1a25, 0x225, 0x1c25, 0x825]),
  (.imul32i, [0x824, 0x825]),
  (.ipa, [0x326, 0xb26, 0x926, 0x1526, 0x1926]),
  (.isberd, [0x923]),
  (.isbewr, [0x927]),
  (.iscadd, [0x811, 0xa11, 0x1a11, 0x211, 0x1c11]),
  (.iscadd32i, [0x811]),
  (.isetp, [0xa0c, 0x1a0c, 0x20c, 0x1c0c, 0x80c]),
  (.jmp, [0xb4a, 0x1b4a, 0x174a, 0x94a, 0x194a, 0x154a]),
  (.jmx, [0x94c]),
  (.jmxu, [0x1959]),
  (.kill, [0x95b]),
  (.ld, [0x980, 0x1980]),
  (.ldc, [0xb82, 0x1582]),
  (.ldg, [0x381, 0x1981]),
  (.ldgdepbar, [0x9af]),
  (.ldgsts, [0x1fae, 0x1dae]),
  (.ldl, [0x983, 0x1983]),
  (.lds, [0x984, 0x1984]),
  (.ldsm, [0x183b, 0x83b]),
  (.ldtram, [0x13ad]),
  (.lea, [0x411, 0x811, 0xa11, 0x1a11, 0x211, 0x1c11]),
  (.lepc, [0x34e]),
  (.lop, [0x812, 0xa12, 0x1a12, 0x212, 0x1c12]),
  (.lop3, [0x812, 0xa12, 0x1a12, 0x212, 0x1c12]),
  (.lop32i, [0x812]),
  (.match_, [0x3a1]),
  (.membar, [0x992]),
  (.mov, [0xa02, 0x1a02, 0x802, 0x202, 0x1c02, 0x1a78, 0x1878, 0x1478, 0x1c78]),
  (.mov32i, [0x802]),
  (.movm, [0x23a]),
  (.mufu, [0xb08, 0x1b08, 0x908, 0x308, 0x1d08]),
  (.nanosleep, [0xb5d, 0x1b5d, 0x95d, 0x35d, 0x1d5d]),
  (.nanotrap, [0xb5a, 0x1b5a, 0x95a, 0x35a, 0x1d5a]),
  (.nop, [0x918]),
  (.out, [0x324, 0x924, 0x1d24]),
  (.p2r, [0xa03, 0x1a03, 0x203, 0x1c03, 0x803]),
  (.pixld, [0x925]),
  (.plop3, [0x81c, 0xa1d, 0x1a1d, 0x21d, 0x1c1d, 0xa1e, 0x1a1e, 0x21e, 0x1c1e, 0xa1f, 0x1a1f,
    0x21f, 0x1c1f]),
  (.pmtrig, [0x801]),
  (.popc, [0xb09, 0x1b09, 0x309, 0x1d09, 0x909]),
  (.prmt, [0xa16, 0x1a16, 0x616, 0x1616, 0x216, 0x1e16, 0x416, 0x1c16, 0x816]),
  (.psetp, [0x81c]),
  (.qspc, [0x3aa, 0x19aa]),
  (.r2b, [0x31e]),
  (.r2p, [0xa04, 0x1a04, 0x804, 0x204, 0x1c04]),
  (.r2ur, [0x3c2]),
  (.red, [0x98e, 0x198e]),
  (.redux, [0x3c4]),
  (.ret, [0x950, 0x1950]),
  (.rpcmov, [0x1b54, 0xb54, 0x954, 0x1d54, 0x352, 0x1b52, 0x1d52, 0xb52, 0x952, 0x353]),
  (.rtt, [0x94f]),
  (.s2r, [0x919]),
  (.s2ur, [0x9c3]),
  (.scatter, [0x218]),
  (.sel, [0xa07, 0x1a07, 0x207, 0x1c07, 0x807]),
  (.setctaid, [0x31f]),
  (.setlmembase, [0x3c1]),
  (.sgxt, [0xa1a, 0x1a1a, 0x21a, 0x1c1a, 0x81a]),
  (.shf, [0xa19, 0x1a19, 0x619, 0x1619, 0x219, 0x1e19, 0x419, 0x1c19, 0x819]),
  (.shfl, [0xf89, 0x989, 0x589, 0x389]),
  (.shl, [0xa19, 0x1a19, 0x219, 0x1c19, 0x819, 0x419]),
  (.shr, [0xa19, 0x1a19, 0x819, 0x219, 0x1c19]),
  (.spmetadata, [0x20e]),
  (.st, [0x385, 0x1985]),
  (.stg, [0x386, 0x1986]),
  (.stl, [0x387, 0x1987]),
  (.sts, [0x388, 0x1988]),
  (.suatom, [0x595, 0x396, 0x795, 0x1f95, 0x593, 0x394, 0x793, 0x1f93]),
  (.suld, [0xb99, 0x99a, 0x799, 0x1f99, 0xb97, 0x998, 0x797, 0x1f97]),
  (.suquery, [0xbb3, 0x9b3, 0x7b3, 0x1fb3]),
  (.sured, [0x59f, 0x3a0, 0x79f, 0x1f9f]),
  (.sust, [0xb9d, 0x99e, 0x79d, 0x1f9d, 0xb9b, 0x99c, 0x79b, 0x1f9b]),
  (.tex, [0xb60, 0x361, 0xb62, 0x1f60]),
  (.tld, [0xb66, 0x367, 0xb68, 0x1f66]),
  (.tld4, [0xb63, 0x364, 0xb65, 0x1f63]),
  (.tmml, [0xb69, 0x36a, 0xb6b, 0x1f69]),
  (.ttucctl, [0x3d5]),
  (.ttuclose, [0x3d2]),
  (.ttugo, [0x3d3]),
  (.ttuld, [0x3d2]),
  (.ttumacrofuse, [0x9d4]),
  (.ttuopen, [0x3d0]),
  (.ttust, [0x3d1]),
  (.txd, [0xb6c, 0x36d, 0xb6e, 0x1f6c]),
  (.txq, [0xb6f, 0x370, 0xb71, 0x1f6f]),
  (.ubmsk, [0x129b, 0x189b]),
  (.ubrev, [0x12be, 0x18be]),
  (.uclea, [0x18bc, 0x1cbc]),
  (.uf2fp, [0x18ba, 0x12ba, 0x14ba]),
  (.uflo, [0x12bd, 0x18bd]),
  (.uiadd3, [0x1290, 0x1890]),
  (.uiadd3_64, [0x1297, 0x1897]),
  (.uimad, [0x12a4, 0x14a4, 0x18a4, 0x12a5, 0x18a5]),
  (.uisetp, [0x128c, 0x188c]),
  (.uldc, [0xab9, 0x1ab9, 0x18b8, 0x1abb]),
  (.ulea, [0x1491, 0x1891, 0x1291]),
  (.ulop, [0x1892, 0x1292]),
  (.ulop3, [0x1892, 0x1292]),
  (.ulop32i, [0x1892]),
  (.umov, [0x882, 0x1c82]),
  (.up2ur, [0x1883, 0x1c83]),
  (.uplop3, [0x89c, 0x129d, 0x129e, 0x129f]),
  (.upopc, [0x12bf, 0x18bf]),
  (.uprmt, [0x1896, 0x1296]),
  (.upsetp, [0x89c]),
  (.ur2up, [0x1884, 0x1c84]),
  (.usel, [0x1287, 0x1887]),
  (.usgxt, [0x129a, 0x189a]),
  (.ushf, [0x1299, 0x1499, 0x1899]),
  (.ushl, [0x1299, 0x1899, 0x1499]),
  (.ushr, [0x1899, 0x1299]),
  (.vabsdiff, [0xa14, 0x1a14, 0x614, 0x1614, 0x214, 0x1e14, 0x414, 0x1c14, 0x814]),
  (.vabsdiff4, [0xa15, 0x1a15, 0x615, 0x1615, 0x215, 0x1e15, 0x415, 0x1c15, 0x815]),
  (.vote, [0x806]),
  (.voteu, [0x886]),
  (.vote_vtg, [0x80d]),
  (.warpsync, [0xb48, 0x1b48, 0x948, 0x348, 0x1d48]),
  (.yield_, [0x946])]

/-- The handler of the first arm whose opcode is equal. -/
def dispatch (opcode : ℕ) : Option Handler :=
  (arms.find? fun arm => arm.2.contains opcode).map Prod.fst

end Oboromi.Model.Sm86

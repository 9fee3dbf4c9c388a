/-! Character classes of Unicode 14 as ordered boundary tables: membership of a class flips at each listed code point. -/
namespace ChipForge.Text.Classes

def sumsFrom (last : Nat) : List Nat→List Nat
  | [] => []
  | gap::rest => (last+gap)::sumsFrom (last+gap) rest

/-- The table in which each boundary has a given distance from the one before it. -/
def boundsOf (gaps : List Nat) : Array Nat := (sumsFrom 0 gaps).toArray

/-- Characters that may begin a name. -/
def nameStartBounds : Array Nat := boundsOf [
  65,26,4,1,1,26,47,1,10,1,4,1,5,23,1,31,1,458,4,12,14,5,7,1,1,1,129,5,1,2,3,3,1,1,6,1,1,3,1,1,1,20,1,83,1,139,8,166,
  1,38,2,1,6,41,71,27,4,4,45,43,35,2,1,99,1,1,15,2,7,2,10,3,2,1,16,1,1,30,29,89,11,1,24,33,9,2,4,1,5,22,4,1,9,1,3,1,
  23,25,7,11,5,24,1,6,17,42,58,54,3,1,18,1,7,10,15,16,4,8,2,2,2,22,1,7,1,1,3,4,3,1,16,1,13,2,1,3,14,2,10,1,8,6,4,2,2,
  22,1,7,1,2,1,2,1,2,31,4,1,1,19,3,16,9,1,3,1,22,1,7,1,2,1,5,3,1,18,1,15,2,23,1,11,8,2,2,2,22,1,7,1,2,1,5,3,1,30,2,1,
  3,15,1,17,1,1,6,3,3,1,4,3,2,1,1,1,2,3,2,3,3,3,12,22,1,52,8,1,3,1,23,1,16,3,1,26,3,2,1,2,2,30,1,4,8,1,3,1,23,1,10,1,
  5,3,1,31,2,1,2,15,2,17,9,1,3,1,41,2,1,16,1,5,3,8,3,24,6,5,18,3,24,1,9,1,1,2,7,58,48,1,1,13,7,58,2,1,1,1,5,1,24,1,1,
  1,10,1,1,10,1,2,5,1,1,21,4,32,1,63,8,1,36,27,5,115,43,20,1,16,6,4,4,3,1,3,2,7,3,4,13,12,1,17,38,1,1,5,1,2,43,1,333,
  1,4,2,7,1,1,1,4,2,41,1,4,2,33,1,4,2,7,1,1,1,4,2,15,1,57,1,4,2,67,37,16,16,86,2,6,3,620,2,17,1,26,5,75,3,11,7,18,13,
  19,14,18,14,13,1,3,15,52,35,1,4,1,67,89,7,41,1,1,5,70,10,31,49,30,2,5,11,44,4,26,54,23,9,53,82,1,93,47,17,8,54,30,
  13,2,10,44,26,36,41,3,10,36,2,9,7,43,2,3,41,4,1,6,1,2,3,1,5,192,64,278,2,6,2,38,2,6,2,8,1,1,1,1,1,1,1,31,2,53,1,7,1,
  1,3,3,1,7,3,4,2,6,4,13,5,3,1,7,116,1,13,1,16,13,101,1,4,1,2,10,1,1,2,6,6,1,1,1,1,1,1,16,2,4,5,5,4,1,17,41,2679,229,
  6,4,3,2,12,38,1,1,5,1,2,56,7,1,16,23,9,7,1,7,1,7,1,7,1,7,1,7,1,7,1,7,550,3,25,9,7,5,2,5,4,86,6,3,1,90,1,4,5,43,1,94,
  17,32,48,16,512,6592,64,22157,67,46,2,269,3,16,10,2,20,47,16,31,2,80,39,9,2,103,2,64,5,2,1,1,1,5,24,16,1,3,1,4,1,23,
  29,52,14,50,62,6,3,1,1,2,11,28,10,23,25,29,7,47,28,1,16,5,1,10,10,5,1,41,23,3,1,8,20,23,3,1,3,50,1,1,3,2,2,5,2,1,1,
  1,24,3,2,11,7,3,12,6,2,6,2,6,9,7,1,7,1,43,1,14,6,115,29,11172,12,23,4,49,8452,366,2,106,38,7,12,5,5,1,1,10,1,13,1,5,
  1,1,1,2,1,2,1,108,33,139,6,218,18,64,2,54,40,10,119,1,1,1,3,1,1,1,1,1,1,1,1,126,36,26,6,26,11,56,2,31,3,6,2,6,2,6,2,
  3,35,12,1,26,1,19,1,2,1,15,2,14,34,123,69,53,267,29,3,49,47,32,13,30,5,38,10,30,2,36,4,8,1,5,42,158,18,36,4,36,4,40,
  8,52,12,11,1,15,1,7,1,2,1,11,1,15,1,7,1,2,67,311,9,22,10,8,24,6,1,42,1,9,69,6,2,1,1,44,1,2,3,1,2,23,10,23,9,31,65,
  19,1,2,10,22,10,26,70,56,6,2,64,1,15,4,1,3,1,29,42,29,3,29,35,8,1,28,27,54,10,22,10,19,13,18,110,73,55,51,13,51,13,
  36,348,42,6,2,78,29,10,1,8,22,42,18,46,21,27,23,12,53,57,2,2,1,13,45,32,25,26,36,29,1,2,1,8,35,3,1,12,48,14,4,21,1,
  1,1,35,18,1,25,84,7,1,1,1,4,1,15,1,10,7,47,38,8,2,2,2,22,1,7,1,2,1,5,3,1,18,1,12,5,158,53,18,4,20,3,30,48,20,2,1,1,
  184,47,41,4,36,48,20,1,59,43,13,1,71,27,37,7,185,44,116,64,31,8,2,1,2,8,1,2,1,24,15,1,1,1,94,8,2,39,16,1,1,1,28,1,
  10,40,7,1,21,1,11,46,19,1,18,73,263,9,1,37,17,1,49,30,112,7,1,2,1,38,21,1,25,6,1,2,1,32,14,1,327,19,189,1,79,922,
  102,111,17,196,2636,97,15,1071,4049,583,8633,569,7,31,17,79,17,30,18,48,16,4,31,21,5,19,688,64,128,75,5,1,66,13,64,
  2,1,1,28,6136,8,1238,42,9,8935,4,1,7,1,2,1,291,45,3,17,4,8,396,2308,107,5,13,3,9,7,10,5990,85,1,71,1,2,2,1,2,2,2,4,
  1,12,1,1,1,7,1,65,1,4,2,8,1,7,1,28,1,4,1,5,1,1,3,7,1,340,2,25,1,25,1,31,1,25,1,31,1,25,1,31,1,25,1,31,1,25,1,8,1844,
  31,481,45,10,7,16,1,321,30,18,44,1268,7,1,4,1,2,1,15,1,197,59,68,7,1,1204,4,1,27,1,2,1,1,2,1,1,10,1,4,1,1,1,1,6,1,4,
  1,1,1,1,1,1,3,1,2,1,1,2,1,1,1,1,1,1,1,1,1,1,2,1,1,2,4,1,7,1,4,1,4,1,1,1,10,1,17,5,3,1,5,1,17,4420,42720,32,4153,7,
  222,2,5762,14,7473,3103,542,1506,4939]

/-- Characters that begin a name and are neither letters nor numbers. -/
def nameMarks : List Nat := [95,6277,6278,8472,8494]

/-- Marks that may stand in a name after its start. -/
def markBounds : Array Nat := boundsOf [
  183,1,584,112,23,1,251,5,265,45,1,1,1,2,1,2,1,1,72,11,48,21,16,1,101,7,2,6,2,2,1,4,35,1,30,27,91,11,58,9,9,1,24,4,1,
  9,1,3,1,5,43,3,60,8,42,24,1,33,54,3,1,18,1,7,10,2,29,3,56,1,1,7,2,2,2,3,9,1,10,2,26,1,2,3,56,1,1,5,4,2,2,3,3,1,30,2,
  3,1,11,3,56,1,1,8,1,3,1,3,20,2,22,6,1,3,56,1,1,7,2,2,2,3,7,3,10,2,30,1,59,5,3,3,1,4,9,1,40,5,55,1,1,7,1,3,1,4,7,2,
  11,2,29,3,56,1,1,7,1,3,1,4,7,2,11,2,28,4,55,2,1,7,1,3,1,4,9,1,10,2,29,3,70,1,4,6,1,1,1,8,18,2,61,1,1,8,12,8,98,1,1,
  10,11,6,74,2,27,1,1,1,1,1,4,2,49,20,1,2,5,11,1,36,9,1,100,20,23,4,4,3,1,3,2,7,3,4,13,12,1,1,10,4,703,3,9,9,928,4,28,
  3,29,2,30,2,64,32,9,1,45,3,1,1,153,1,118,12,4,12,158,1,60,5,57,10,1,29,2,1,48,14,1,16,49,5,47,17,38,9,12,3,30,13,56,
  14,48,20,152,3,1,21,4,1,6,1,2,3,198,64,575,2,19,1,123,13,4,1,3,12,3070,3,141,1,96,32,554,6,105,2,30164,1,4,10,32,2,
  80,2,272,1,3,1,4,1,23,5,4,1,83,2,50,18,26,18,13,1,38,8,25,13,44,4,47,14,36,1,67,14,12,1,8,2,45,3,50,1,1,3,2,2,5,2,1,
  1,41,5,5,2,236,8,1,2,20272,1,737,16,16,16,3,2,24,3,239,1,94,2,605,1,226,1,149,5,1670,3,1,2,5,4,40,3,4,1,165,2,573,4,
  387,2,153,11,49,4,122,3,53,15,41,1,2,2,10,4,45,11,7,1,61,3,36,14,16,2,44,1,12,3,48,14,8,4,1,2,92,12,6,1,160,12,21,4,
  55,2,1,7,2,2,2,3,9,1,10,2,2,7,3,5,192,18,23,1,81,20,235,7,2,9,27,2,82,17,106,13,101,15,256,15,245,6,1,2,2,4,1,1,1,2,
  141,7,2,7,3,1,28,10,40,7,1,4,8,1,9,11,46,16,405,8,1,8,82,22,1,14,122,6,3,1,1,2,1,7,1,1,66,5,1,2,1,5,347,4,19449,5,
  59,7,1048,1,1,55,7,4,81,1,11,2,19627,2,4705,46,2,23,542,5,3,6,8,8,2,7,30,4,148,3,1979,55,4,50,8,1,14,1,22,5,1,15,
  1360,7,1,17,2,7,1,2,1,5,261,7,375,1,61,4,1504,7,109,7,792501,240]

/-- Decimal digits of all scripts. -/
def decimalBounds : Array Nat := boundsOf [
  48,10,1574,10,134,10,198,10,412,10,118,10,118,10,118,10,118,10,118,10,118,10,118,10,118,10,118,10,96,10,118,10,70,
  10,278,10,70,10,1862,10,38,10,300,10,128,10,166,10,6,10,182,10,86,10,134,10,6,10,35270,10,678,10,38,10,198,10,22,10,
  86,10,406,10,21270,10,1414,10,2182,10,812,10,128,10,60,10,144,10,278,10,342,10,118,10,374,10,102,10,102,10,422,10,
  102,10,758,10,246,10,70,10,19638,10,86,10,134,10,27764,50,2368,10,422,10,1622,10,4758,10]

/-- Digits with a typographic form of their own. -/
def digitFormBounds : Array Nat := boundsOf [
  178,2,5,1,4783,9,1640,1,1685,1,3,6,6,10,982,9,11,9,11,9,89,1,10,9,1,1,630,9,1,9,1,9,58029,4,1052,9,489,9,57509,11]

/-- Numbers that are not written with digits, and letters that cannot begin a name. -/
def numeralBounds : Array Nat := boundsOf [
  188,3,699,1,1657,6,376,6,120,3,133,7,217,7,17,9,186,1,127,1,118,10,1086,11,1139,10,2390,16,41,1,735,11,9,11,9,11,79,
  10,9,1,640,1,9,1,9,1,1385,1,305,1,866,4,138,10,30,8,1,15,32,10,39,15,30064,6,21544,6,406,2,116,1,1,1,1,1,1,1,1,1,1,
  1,1,1,1,1,287,2,359,45,65,4,17,2,341,27,36,4,1332,8,25,7,39,9,75,5,22,6,160,2,2,16,2,46,68,5,52,2,30,3,75,5,104,8,
  24,8,41,7,330,6,361,22,158,10,42,4,112,7,143,11,379,20,1349,2,430,9,871,19,851,21,19334,7,798,23,25673,20,108,25,
  5454,9,929,59,1,3,1,4,76,45,1,15,973,2]

/-- Signs that can be shown and are no part of a word, and of the blanks only the space. -/
def symbolBounds : Array Nat := boundsOf [
  32,16,10,7,26,4,1,1,26,4,34,9,1,2,1,4,2,1,1,1,1,1,2,1,3,1,23,1,31,1,458,4,12,14,5,7,1,1,1,17,117,1,8,1,5,2,112,1,
  139,1,5,2,208,6,41,2,2,3,46,1,1,1,2,1,2,1,44,2,17,10,11,1,1,3,74,4,102,1,9,1,10,1,19,2,1,14,232,4,4,2,48,15,31,1,41,
  1,219,2,10,1,129,2,6,2,1,1,120,1,121,2,126,1,130,8,124,1,7,1,4,1,202,1,41,1,122,1,74,1,15,1,10,2,165,23,2,6,20,1,1,
  1,1,1,1,4,71,1,56,8,1,6,1,13,111,6,78,2,91,1,612,9,39,10,102,1,620,2,44,2,78,3,71,2,157,3,1,4,36,11,309,1,3,2,152,
  34,30,2,128,7,1,6,16,1,155,17,9,11,125,4,59,5,62,2,64,8,11,1,745,1,1,3,11,3,13,3,13,3,13,2,17,24,8,15,2,19,1,10,27,
  5,11,5,17,33,28,4,1,3,27,2,1,4,1,2,10,1,1,2,6,6,1,1,1,1,1,1,16,2,4,5,5,4,1,1,58,2,4,663,25,11,81,78,22,630,30,992,2,
  32,1,105,229,6,14,4,1,2,112,1,143,47,1,46,34,26,1,89,12,214,26,12,5,4,3,25,15,1,5,2,5,3,91,2,3,1,90,1,148,2,4,10,32,
  36,28,31,11,30,8,1,15,32,10,39,15,320,6592,64,22160,55,55,2,269,3,96,4,10,1,115,6,8,23,9,2,103,2,157,4,10,4,58,4,86,
  2,40,3,1,1,49,2,47,1,97,13,16,2,124,4,23,3,100,2,16,2,105,1,14,2,127,1,20285,1,136,17,379,18,127,1,44,4,16,10,22,3,
  2,24,3,3,1,19,1,4,149,15,10,7,26,4,1,1,26,11,122,7,1,7,13,2,258,3,52,9,57,17,2,3,1,13,3,1,47,45,418,1,48,1,414,1,
  743,1,31,2,166,1,31,1,272,9,38,1,72,1,39,7,66,7,89,4,784,1,167,5,44,4,189,7,109,2,1,4,126,4,48,2,79,4,4,1,13,1,1,3,
  88,6,107,1,417,5,10,2,1,1,104,1,250,23,105,3,28,13,76,1,130,4,251,1,264,3,155,1,92,8,83,3,1,5,414,5,42,2,645,2,220,
  29,13,1,1136,5,2940,2,14971,2,133,1,65,9,4,2,849,4,327,1,19641,1,2,1,4784,116,60,246,10,39,2,60,5,3,22,2,7,30,4,61,
  21,66,3,1,186,87,874,1,25,1,31,1,25,1,31,1,25,1,31,1,25,1,31,1,25,1,60,512,55,4,50,8,1,14,1,7,1731,1,431,1,1630,2,
  844,1,3,1,125,1,449,2,270,44,4,100,12,15,2,15,1,15,1,37,23,161,56,29,13,44,4,9,7,2,14,6,154,984,5,16,3,13,3,116,12,
  89,7,12,4,1,15,12,4,56,8,10,6,40,8,30,2,2,78,340,12,14,2,5,3,5,3,7,9,29,3,11,5,6,10,10,6,8,8,7,9,147,1,55]

/-- Blanks, with line and paragraph separators. -/
def blankBounds : Array Nat := boundsOf [
  9,5,14,5,100,1,26,1,5599,1,2431,11,29,2,5,1,47,1,4000,1]

/-- Lower case runs: first and last capital, distance of neighbours, and shift to the small letter. -/
def lowerRuns : Array (Nat×Nat×Nat×Int) := #[
  (65,90,1,32),(192,214,1,32),(216,222,1,32),(256,302,2,1),(306,310,2,1),(313,327,2,1),
  (330,374,2,1),(376,376,1,-121),(377,381,2,1),(385,385,1,210),(386,388,2,1),(390,390,1,206),
  (391,391,1,1),(393,394,1,205),(395,395,1,1),(398,398,1,79),(399,399,1,202),(400,400,1,203),
  (401,401,1,1),(403,403,1,205),(404,404,1,207),(406,406,1,211),(407,407,1,209),(408,408,1,1),
  (412,412,1,211),(413,413,1,213),(415,415,1,214),(416,420,2,1),(422,422,1,218),(423,423,1,1),
  (425,425,1,218),(428,428,1,1),(430,430,1,218),(431,431,1,1),(433,434,1,217),(435,437,2,1),
  (439,439,1,219),(440,440,1,1),(444,444,1,1),(452,452,1,2),(453,453,1,1),(455,455,1,2),
  (456,456,1,1),(458,458,1,2),(459,475,2,1),(478,494,2,1),(497,497,1,2),(498,500,2,1),
  (502,502,1,-97),(503,503,1,-56),(504,542,2,1),(544,544,1,-130),(546,562,2,1),
  (570,570,1,10795),(571,571,1,1),(573,573,1,-163),(574,574,1,10792),(577,577,1,1),
  (579,579,1,-195),(580,580,1,69),(581,581,1,71),(582,590,2,1),(880,882,2,1),(886,886,1,1),
  (895,895,1,116),(902,902,1,38),(904,906,1,37),(908,908,1,64),(910,911,1,63),(913,929,1,32),
  (931,939,1,32),(975,975,1,8),(984,1006,2,1),(1012,1012,1,-60),(1015,1015,1,1),
  (1017,1017,1,-7),(1018,1018,1,1),(1021,1023,1,-130),(1024,1039,1,80),(1040,1071,1,32),
  (1120,1152,2,1),(1162,1214,2,1),(1216,1216,1,15),(1217,1229,2,1),(1232,1326,2,1),
  (1329,1366,1,48),(4256,4293,1,7264),(4295,4295,1,7264),(4301,4301,1,7264),(5024,5103,1,38864),
  (5104,5109,1,8),(7312,7354,1,-3008),(7357,7359,1,-3008),(7680,7828,2,1),(7838,7838,1,-7615),
  (7840,7934,2,1),(7944,7951,1,-8),(7960,7965,1,-8),(7976,7983,1,-8),(7992,7999,1,-8),
  (8008,8013,1,-8),(8025,8031,2,-8),(8040,8047,1,-8),(8072,8079,1,-8),(8088,8095,1,-8),
  (8104,8111,1,-8),(8120,8121,1,-8),(8122,8123,1,-74),(8124,8124,1,-9),(8136,8139,1,-86),
  (8140,8140,1,-9),(8152,8153,1,-8),(8154,8155,1,-100),(8168,8169,1,-8),(8170,8171,1,-112),
  (8172,8172,1,-7),(8184,8185,1,-128),(8186,8187,1,-126),(8188,8188,1,-9),(8486,8486,1,-7517),
  (8490,8490,1,-8383),(8491,8491,1,-8262),(8498,8498,1,28),(8544,8559,1,16),(8579,8579,1,1),
  (9398,9423,1,26),(11264,11311,1,48),(11360,11360,1,1),(11362,11362,1,-10743),
  (11363,11363,1,-3814),(11364,11364,1,-10727),(11367,11371,2,1),(11373,11373,1,-10780),
  (11374,11374,1,-10749),(11375,11375,1,-10783),(11376,11376,1,-10782),(11378,11378,1,1),
  (11381,11381,1,1),(11390,11391,1,-10815),(11392,11490,2,1),(11499,11501,2,1),(11506,11506,1,1),
  (42560,42604,2,1),(42624,42650,2,1),(42786,42798,2,1),(42802,42862,2,1),(42873,42875,2,1),
  (42877,42877,1,-35332),(42878,42886,2,1),(42891,42891,1,1),(42893,42893,1,-42280),
  (42896,42898,2,1),(42902,42920,2,1),(42922,42922,1,-42308),(42923,42923,1,-42319),
  (42924,42924,1,-42315),(42925,42925,1,-42305),(42926,42926,1,-42308),(42928,42928,1,-42258),
  (42929,42929,1,-42282),(42930,42930,1,-42261),(42931,42931,1,928),(42932,42946,2,1),
  (42948,42948,1,-48),(42949,42949,1,-42307),(42950,42950,1,-35384),(42951,42953,2,1),
  (42960,42960,1,1),(42966,42968,2,1),(42997,42997,1,1),(65313,65338,1,32),(66560,66599,1,40),
  (66736,66771,1,40),(66928,66938,1,39),(66940,66954,1,39),(66956,66962,1,39),(66964,66965,1,39),
  (68736,68786,1,64),(71840,71871,1,32),(93760,93791,1,32),(125184,125217,1,34)]

/-- How many boundaries lie at or below the code point, by halving the range `[lo, hi)`. -/
def boundariesUpTo (table : Array Nat) (code : Nat) : Nat→Nat→Nat→Nat
  | 0, lo, _ => lo
  | fuel+1, lo, hi =>
    if hi ≤ lo then lo
    else
      let mid := (lo+hi) / 2
      if table.getD mid 0 ≤ code then boundariesUpTo table code fuel (mid+1) hi
      else boundariesUpTo table code fuel lo mid

def member (table : Array Nat) (c : Char) : Bool :=
  boundariesUpTo table c.toNat 24 0 table.size % 2 == 1

/-- Letters that are not the small form of the capital they have at the start of a word: first, last, step, and distance
to the capital. -/
def titleExceptions : List (Nat×Nat×Nat×Int) := [
  (181,181,1,743),(305,305,1,-232),(383,383,1,-300),(452,452,1,1),(454,454,1,-1),(455,455,1,1),(457,457,1,-1),
  (458,458,1,1),(460,460,1,-1),(497,497,1,1),(499,499,1,-1),(837,837,1,84),(962,962,1,-31),(976,976,1,-62),
  (977,977,1,-57),(981,981,1,-47),(982,982,1,-54),(1008,1008,1,-86),(1009,1009,1,-80),(1013,1013,1,-96),
  (4304,4346,1,0),(4349,4351,1,0),(7296,7296,1,-6254),(7297,7297,1,-6253),(7298,7298,1,-6244),(7299,7300,1,-6242),
  (7301,7301,1,-6243),(7302,7302,1,-6236),(7303,7303,1,-6181),(7304,7304,1,35266),(7835,7835,1,-59),
  (8126,8126,1,-7205)]

/-- Letters whose form at the start of a word has several characters. -/
def titleSequences : List (Nat×List Nat) := [
  (223,[83,115]),(329,[700,78]),(496,[74,780]),(912,[921,776,769]),(944,[933,776,769]),
  (1415,[1333,1410]),(7830,[72,817]),(7831,[84,776]),(7832,[87,778]),(7833,[89,778]),(7834,[65,702]),
  (8016,[933,787]),(8018,[933,787,768]),(8020,[933,787,769]),(8022,[933,787,834]),(8114,[8122,837]),
  (8116,[902,837]),(8118,[913,834]),(8119,[913,834,837]),(8130,[8138,837]),(8132,[905,837]),
  (8134,[919,834]),(8135,[919,834,837]),(8146,[921,776,768]),(8147,[921,776,769]),(8150,[921,834]),
  (8151,[921,776,834]),(8162,[933,776,768]),(8163,[933,776,769]),(8164,[929,787]),(8166,[933,834]),
  (8167,[933,776,834]),(8178,[8186,837]),(8180,[911,837]),(8182,[937,834]),(8183,[937,834,837]),
  (64256,[70,102]),(64257,[70,105]),(64258,[70,108]),(64259,[70,102,105]),(64260,[70,102,108]),
  (64261,[83,116]),(64262,[83,116]),(64275,[1348,1398]),(64276,[1348,1381]),(64277,[1348,1387]),
  (64278,[1358,1398]),(64279,[1348,1389])]

end ChipForge.Text.Classes

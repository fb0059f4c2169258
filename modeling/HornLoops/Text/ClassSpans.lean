import HornLoops.Text.Span

/-!
# Spans of the character classes

The classes of the characters from U+0080 on, as the lengths of gaps and spans in increasing order.
They follow the Unicode properties White_Space, Uppercase, Lowercase, Alphabetic and the number
categories. No code point stands in two of these tables, so the order in which they are searched does
not matter.
-/

namespace HornLoops.Text

/-- Blank characters. -/
def blankSpans : Spans := .ofRuns 0
  [133, 1, 26, 1, 5599, 1, 2431, 11, 29, 2, 5, 1, 47, 1, 4000, 1]

/-- Uppercase letters that do not alternate with their lowercase form. -/
def upperSpans : Spans := .ofRuns 0
  [192, 23, 1, 7, 153, 1, 8, 1, 4, 2, 1, 3, 2, 4, 1, 2, 1, 3, 3, 2, 1, 1, 6, 1, 5, 1, 1, 2, 1, 2, 4, 2, 3, 1, 7, 1, 2,
  1, 2, 1, 38, 1, 2, 1, 1, 2, 66, 2, 1, 2, 2, 1, 1, 3, 304, 1, 8, 1, 6, 1, 1, 3, 1, 1, 1, 2, 1, 17, 1, 9, 35, 1, 2, 3,
  31, 1, 2, 1, 1, 2, 2, 51, 144, 1, 112, 38, 2889, 38, 1, 1, 5, 1, 722, 86, 2195, 1, 6, 43, 2, 3, 584, 8, 8, 6, 10, 8,
  8, 8, 8, 6, 11, 1, 1, 1, 1, 1, 1, 1, 8, 8, 72, 4, 12, 4, 12, 4, 12, 5, 11, 4, 262, 1, 4, 1, 3, 3, 2, 3, 2, 1, 3, 5,
  6, 1, 1, 1, 1, 1, 1, 4, 2, 4, 10, 2, 5, 1, 26, 16, 19, 1, 818, 26, 1840, 48, 48, 1, 1, 3, 8, 3, 5, 1, 8, 2, 114, 1,
  31370, 1, 44, 5, 1, 4, 16, 3, 4, 1, 16, 1, 24, 1, 22315, 26, 1221, 40, 136, 36, 156, 11, 1, 15, 1, 7, 1, 2, 1770, 51,
  157, 22, 2874, 32, 21888, 32, 64, 25, 25927, 26, 26, 26, 26, 26, 26, 1, 1, 2, 2, 1, 2, 2, 2, 4, 1, 8, 26, 26, 26, 2,
  1, 4, 2, 8, 1, 7, 27, 2, 1, 4, 1, 5, 1, 1, 3, 7, 27, 26, 26, 26, 26, 26, 26, 26, 26, 26, 26, 26, 30, 25, 33, 25, 33,
  25, 33, 25, 33, 25, 33, 1, 4405, 34, 2062, 26, 6, 26, 6, 26]

/-- Lowercase letters that do not alternate with their uppercase form. -/
def lowerSpans : Spans := .ofRuns 0
  [170, 1, 10, 1, 4, 1, 36, 24, 1, 8, 56, 1, 16, 1, 53, 2, 7, 1, 3, 2, 4, 1, 2, 1, 3, 3, 2, 1, 12, 1, 1, 1, 2, 1, 8, 2,
  2, 3, 6, 1, 2, 1, 2, 1, 16, 1, 18, 1, 2, 1, 1, 1, 62, 6, 2, 1, 2, 2, 1, 1, 13, 68, 2, 35, 7, 2, 30, 5, 96, 1, 49, 1,
  2, 4, 18, 1, 27, 35, 1, 2, 3, 3, 24, 4, 1, 1, 2, 1, 2, 2, 51, 48, 111, 1, 144, 41, 2887, 43, 1, 4, 760, 6, 2178, 9,
  1, 1, 117, 192, 214, 8, 98, 8, 8, 6, 10, 8, 8, 8, 8, 6, 10, 8, 8, 8, 8, 14, 2, 8, 8, 8, 8, 8, 8, 5, 1, 2, 6, 1, 3, 3,
  1, 2, 8, 4, 2, 2, 8, 8, 10, 3, 1, 2, 121, 1, 13, 1, 16, 13, 109, 1, 3, 2, 3, 1, 27, 1, 4, 1, 4, 1, 2, 2, 8, 4, 4, 1,
  33, 16, 4, 1, 843, 26, 1862, 48, 1, 1, 3, 2, 13, 1, 1, 8, 102, 1, 14, 1, 12, 38, 1, 1, 5, 1, 31086, 2, 146, 2, 62, 9,
  27, 2, 25, 1, 65, 4, 1, 1, 1, 3, 821, 43, 1, 14, 6, 80, 20288, 7, 12, 5, 1065, 26, 1229, 40, 136, 36, 155, 11, 1, 15,
  1, 7, 1, 2, 451, 1, 2, 3, 1, 42, 1, 9, 1285, 51, 125, 22, 2874, 32, 21888, 32, 59, 25, 25926, 26, 26, 7, 1, 18, 26,
  26, 26, 4, 1, 1, 1, 7, 1, 11, 26, 26, 26, 26, 26, 26, 26, 26, 26, 26, 26, 26, 26, 26, 26, 26, 26, 28, 28, 25, 1, 6,
  26, 25, 1, 6, 26, 25, 1, 6, 26, 25, 1, 6, 26, 25, 1, 6, 1, 1, 1844, 10, 1, 20, 6, 6, 261, 62, 2228, 34]

/-- Spans in which uppercase and lowercase letters alternate, uppercase first. -/
def pairedSpans : Spans := .ofRuns 0
  [256, 56, 1, 16, 1, 46, 1, 6, 3, 4, 26, 6, 1, 4, 8, 4, 22, 16, 1, 18, 8, 60, 18, 10, 288, 4, 100, 24, 112, 34, 8, 54,
  1, 14, 1, 96, 6352, 150, 8, 98, 3431, 6, 3, 4, 12, 100, 7, 4, 31057, 46, 18, 28, 134, 14, 2, 62, 9, 4, 1, 10, 3, 4,
  1, 4, 2, 20, 10, 16, 3, 4, 1, 16]

/-- Alphabetic characters that are neither uppercase nor lowercase. -/
def caselessSpans : Spans := .ofRuns 0
  [443, 1, 4, 4, 1, 1, 2, 1, 2, 1, 38, 1, 161, 2, 35, 7, 6, 12, 26, 1, 1, 1, 116, 13, 4, 1, 484, 1, 86, 14, 1, 1, 1, 2,
  1, 2, 1, 1, 8, 27, 4, 4, 29, 11, 5, 56, 1, 7, 14, 102, 1, 8, 4, 8, 4, 3, 10, 3, 2, 1, 16, 48, 13, 101, 24, 33, 9, 2,
  4, 1, 5, 24, 2, 19, 19, 25, 7, 11, 5, 24, 1, 7, 7, 1, 8, 42, 10, 12, 3, 7, 6, 76, 1, 16, 1, 3, 4, 15, 13, 19, 1, 8,
  2, 2, 2, 22, 1, 7, 1, 1, 3, 4, 3, 8, 2, 2, 2, 2, 1, 1, 8, 1, 4, 2, 1, 5, 12, 2, 10, 1, 4, 3, 1, 6, 4, 2, 2, 22, 1, 7,
  1, 2, 1, 2, 1, 2, 4, 5, 4, 2, 2, 2, 4, 1, 7, 4, 1, 1, 17, 6, 11, 3, 1, 9, 1, 3, 1, 22, 1, 7, 1, 2, 1, 5, 3, 9, 1, 3,
  1, 2, 3, 1, 15, 4, 21, 4, 4, 3, 1, 8, 2, 2, 2, 22, 1, 7, 1, 2, 1, 5, 3, 8, 2, 2, 2, 2, 9, 2, 4, 2, 1, 5, 13, 1, 16,
  2, 1, 6, 3, 3, 1, 4, 3, 2, 1, 1, 1, 2, 3, 2, 3, 3, 3, 12, 4, 5, 3, 3, 1, 3, 3, 1, 6, 1, 40, 13, 1, 3, 1, 23, 1, 16,
  3, 8, 1, 3, 1, 3, 8, 2, 1, 3, 1, 2, 2, 4, 28, 4, 1, 8, 1, 3, 1, 23, 1, 10, 1, 5, 3, 8, 1, 3, 1, 3, 8, 2, 5, 3, 1, 4,
  13, 3, 12, 13, 1, 3, 1, 41, 2, 8, 1, 3, 1, 3, 1, 1, 5, 4, 7, 5, 22, 6, 1, 3, 1, 18, 3, 24, 1, 9, 1, 1, 2, 7, 8, 6, 1,
  1, 1, 8, 18, 2, 13, 58, 5, 7, 6, 1, 51, 2, 1, 1, 1, 5, 1, 24, 1, 1, 1, 19, 1, 3, 2, 5, 1, 1, 6, 1, 14, 4, 32, 1, 63,
  8, 1, 36, 4, 19, 4, 16, 1, 36, 67, 55, 1, 1, 2, 5, 16, 64, 10, 4, 98, 329, 1, 4, 2, 7, 1, 1, 1, 4, 2, 41, 1, 4, 2,
  33, 1, 4, 2, 7, 1, 1, 1, 4, 2, 15, 1, 57, 1, 4, 2, 67, 37, 16, 113, 620, 2, 17, 1, 26, 5, 75, 3, 11, 7, 20, 11, 21,
  12, 20, 12, 13, 1, 3, 1, 2, 12, 52, 2, 19, 14, 1, 4, 1, 67, 89, 7, 43, 5, 70, 10, 31, 1, 12, 4, 9, 23, 30, 2, 5, 11,
  44, 4, 26, 54, 28, 4, 63, 2, 20, 50, 1, 23, 2, 11, 3, 49, 52, 1, 15, 1, 8, 51, 42, 2, 4, 10, 44, 1, 11, 14, 55, 22,
  3, 10, 36, 107, 4, 1, 6, 1, 2, 3, 1, 216, 34, 403, 8, 8, 8, 8, 8, 12, 1, 15, 1, 47, 1, 312, 4, 71, 3, 2, 4, 2983, 56,
  7, 1, 16, 23, 9, 7, 1, 7, 1, 7, 1, 7, 1, 7, 1, 7, 1, 7, 1, 7, 1, 32, 47, 1, 469, 3, 25, 9, 7, 5, 2, 5, 4, 86, 6, 3,
  1, 90, 1, 4, 5, 43, 1, 94, 17, 32, 48, 16, 512, 6592, 64, 22157, 67, 46, 2, 269, 3, 16, 10, 2, 66, 1, 5, 8, 3, 1, 30,
  82, 39, 9, 104, 1, 6, 1, 103, 1, 3, 11, 1, 33, 24, 52, 12, 68, 1, 1, 44, 6, 3, 1, 1, 3, 10, 33, 5, 35, 13, 29, 3, 51,
  1, 12, 15, 1, 16, 16, 10, 5, 1, 55, 9, 14, 18, 23, 3, 69, 1, 1, 1, 1, 24, 3, 2, 16, 2, 4, 11, 6, 2, 6, 2, 6, 9, 7, 1,
  7, 145, 43, 21, 11172, 12, 23, 4, 49, 8452, 366, 2, 106, 67, 12, 1, 13, 1, 5, 1, 1, 1, 2, 1, 2, 1, 108, 33, 363, 18,
  64, 2, 54, 40, 12, 116, 5, 1, 135, 105, 89, 3, 6, 2, 6, 2, 6, 2, 3, 35, 12, 1, 26, 1, 19, 1, 2, 1, 15, 2, 14, 34,
  123, 69, 53, 267, 29, 3, 49, 47, 32, 13, 30, 5, 43, 5, 30, 2, 36, 4, 8, 1, 5, 122, 78, 98, 40, 8, 52, 92, 52, 12,
  311, 9, 22, 10, 8, 25, 2, 125, 6, 2, 1, 1, 44, 1, 2, 3, 1, 2, 23, 10, 23, 9, 31, 65, 19, 1, 2, 10, 22, 10, 26, 6, 26,
  38, 56, 6, 2, 64, 4, 1, 2, 5, 8, 1, 3, 1, 29, 42, 29, 3, 29, 35, 8, 1, 28, 27, 54, 10, 22, 10, 19, 13, 18, 110, 73,
  183, 40, 34, 6, 25, 1, 5, 1, 272, 42, 1, 2, 3, 2, 16, 6, 50, 3, 3, 29, 10, 1, 8, 22, 42, 18, 46, 21, 27, 23, 9, 70,
  43, 5, 10, 57, 9, 1, 13, 25, 23, 51, 17, 4, 8, 35, 3, 1, 9, 64, 1, 4, 9, 2, 10, 1, 1, 1, 35, 18, 1, 34, 2, 1, 6, 4,
  62, 7, 1, 1, 1, 4, 1, 15, 1, 10, 7, 57, 23, 4, 1, 8, 2, 2, 2, 22, 1, 7, 1, 2, 1, 5, 3, 8, 2, 2, 2, 2, 3, 1, 6, 1, 5,
  7, 28, 10, 1, 1, 2, 1, 1, 38, 1, 10, 1, 1, 2, 1, 1, 4, 1, 2, 3, 1, 1, 1, 44, 66, 1, 3, 1, 4, 20, 3, 30, 66, 2, 2, 1,
  1, 184, 54, 2, 7, 25, 6, 34, 63, 1, 1, 3, 1, 59, 54, 2, 1, 71, 27, 2, 14, 21, 7, 185, 57, 198, 8, 2, 1, 2, 8, 1, 2,
  1, 30, 1, 2, 2, 2, 2, 4, 93, 8, 2, 46, 2, 6, 1, 1, 1, 2, 27, 51, 2, 10, 17, 72, 5, 1, 18, 73, 103, 8, 88, 33, 31, 9,
  1, 45, 1, 7, 1, 1, 49, 30, 2, 22, 1, 14, 73, 7, 1, 2, 1, 44, 3, 1, 1, 2, 1, 3, 1, 1, 2, 2, 24, 6, 1, 2, 1, 37, 1, 2,
  1, 4, 1, 1, 23, 44, 260, 23, 9, 17, 1, 41, 3, 3, 111, 1, 79, 922, 102, 111, 17, 196, 2636, 97, 15, 1072, 17, 6, 25,
  3995, 5, 583, 6841, 47, 1745, 569, 7, 31, 17, 79, 17, 30, 18, 48, 16, 4, 31, 21, 5, 19, 432, 45, 403, 75, 4, 57, 7,
  17, 64, 2, 1, 1, 12, 7, 9, 7382, 41, 32, 97, 115, 8701, 4, 1, 7, 1, 2, 1, 291, 15, 1, 29, 3, 2, 1, 14, 4, 8, 396,
  2308, 107, 5, 13, 3, 9, 7, 10, 4, 1, 8811, 1, 245, 7, 1, 17, 2, 7, 1, 2, 1, 5, 100, 1, 112, 45, 10, 7, 16, 1, 321,
  30, 18, 44, 484, 28, 228, 30, 2, 1, 207, 31, 1, 22, 8, 2, 224, 7, 1, 4, 1, 2, 1, 15, 1, 197, 130, 1, 3, 1, 1204, 4,
  1, 27, 1, 2, 1, 1, 2, 1, 1, 10, 1, 4, 1, 1, 1, 1, 6, 1, 4, 1, 1, 1, 1, 1, 1, 3, 1, 2, 1, 1, 2, 1, 1, 1, 1, 1, 1, 1,
  1, 1, 1, 2, 1, 1, 2, 4, 1, 7, 1, 4, 1, 4, 1, 1, 1, 10, 1, 17, 5, 3, 1, 5, 1, 17, 4420, 42720, 32, 4382, 2, 5774, 2,
  7473, 15, 622, 2466, 542, 1506, 4939, 5, 8490]

/-- Numerals that are not alphabetic. -/
def numeralSpans : Spans := .ofRuns 0
  [178, 2, 5, 1, 2, 3, 1441, 10, 134, 10, 198, 10, 412, 10, 118, 10, 4, 6, 108, 10, 118, 10, 118, 10, 2, 6, 110, 13,
  115, 10, 8, 7, 103, 10, 104, 7, 7, 19, 109, 10, 96, 10, 118, 10, 70, 20, 268, 10, 70, 10, 719, 20, 1123, 10, 6, 10,
  22, 10, 300, 10, 128, 11, 165, 10, 6, 10, 182, 10, 86, 10, 134, 10, 6, 10, 1046, 1, 3, 6, 6, 10, 198, 16, 41, 1, 726,
  60, 78, 22, 630, 30, 1385, 1, 1172, 4, 138, 10, 30, 8, 1, 15, 32, 10, 39, 15, 29536, 10, 518, 6, 154, 10, 38, 10,
  198, 10, 22, 10, 86, 10, 406, 10, 21270, 10, 493, 45, 65, 4, 17, 2, 341, 27, 36, 4, 380, 10, 942, 8, 25, 7, 39, 9,
  75, 5, 22, 6, 160, 2, 2, 16, 2, 46, 64, 9, 52, 2, 30, 3, 75, 5, 104, 8, 24, 8, 41, 7, 330, 6, 48, 10, 6, 10, 278, 31,
  158, 10, 42, 4, 112, 7, 134, 30, 128, 10, 60, 10, 144, 10, 7, 20, 251, 10, 342, 10, 118, 10, 374, 10, 102, 10, 6, 20,
  76, 12, 420, 19, 93, 10, 662, 10, 86, 29, 227, 10, 70, 10, 54, 10, 358, 10, 102, 21, 16731, 10, 2342, 10, 86, 10,
  134, 10, 1, 7, 526, 10, 262, 23, 24153, 10, 1478, 20, 12, 20, 108, 25, 1109, 50, 2368, 10, 422, 10, 502, 10, 247, 10,
  716, 9, 128, 10, 791, 59, 1, 3, 1, 4, 76, 45, 1, 15, 962, 13, 2787, 10]

end HornLoops.Text

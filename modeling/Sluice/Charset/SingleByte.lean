import Sluice.Charset.Encoding

/-!
Encodings with one byte for each character. Bytes below 80 are ASCII; the upper half of an encoding
is a list of runs of consecutive code points.
-/
namespace Sluice

/-- A run of consecutive code points for consecutive bytes, or of bytes without a character. -/
inductive Run
  | chars (first count : Nat)
  | gap (count : Nat)

/-- The byte of a code point when the runs start at byte `start`. -/
def Run.byte? (start : Nat) (point : Nat) : List Run → Option Nat
  | [] => none
  | .gap count :: runs => byte? (start + count) point runs
  | .chars first count :: runs =>
    if first ≤ point ∧ point < first + count then some (start + (point - first))
    else byte? (start + count) point runs

namespace WebEncoding

def ibm866Runs : List Run :=
  [.chars 0x410 48, .chars 0x2591 3, .chars 0x2502 1, .chars 0x2524 1, .chars 0x2561 2,
   .chars 0x2556 1, .chars 0x2555 1, .chars 0x2563 1, .chars 0x2551 1, .chars 0x2557 1,
   .chars 0x255D 1, .chars 0x255C 1, .chars 0x255B 1, .chars 0x2510 1, .chars 0x2514 1,
   .chars 0x2534 1, .chars 0x252C 1, .chars 0x251C 1, .chars 0x2500 1, .chars 0x253C 1,
   .chars 0x255E 2, .chars 0x255A 1, .chars 0x2554 1, .chars 0x2569 1, .chars 0x2566 1,
   .chars 0x2560 1, .chars 0x2550 1, .chars 0x256C 1, .chars 0x2567 2, .chars 0x2564 2,
   .chars 0x2559 1, .chars 0x2558 1, .chars 0x2552 2, .chars 0x256B 1, .chars 0x256A 1,
   .chars 0x2518 1, .chars 0x250C 1, .chars 0x2588 1, .chars 0x2584 1, .chars 0x258C 1,
   .chars 0x2590 1, .chars 0x2580 1, .chars 0x440 16, .chars 0x401 1, .chars 0x451 1,
   .chars 0x404 1, .chars 0x454 1, .chars 0x407 1, .chars 0x457 1, .chars 0x40E 1, .chars 0x45E 1,
   .chars 0xB0 1, .chars 0x2219 1, .chars 0xB7 1, .chars 0x221A 1, .chars 0x2116 1, .chars 0xA4 1,
   .chars 0x25A0 1, .chars 0xA0 1]

def iso8859x10Runs : List Run :=
  [.chars 0x80 33, .chars 0x104 1, .chars 0x112 1, .chars 0x122 1, .chars 0x12A 1, .chars 0x128 1,
   .chars 0x136 1, .chars 0xA7 1, .chars 0x13B 1, .chars 0x110 1, .chars 0x160 1, .chars 0x166 1,
   .chars 0x17D 1, .chars 0xAD 1, .chars 0x16A 1, .chars 0x14A 1, .chars 0xB0 1, .chars 0x105 1,
   .chars 0x113 1, .chars 0x123 1, .chars 0x12B 1, .chars 0x129 1, .chars 0x137 1, .chars 0xB7 1,
   .chars 0x13C 1, .chars 0x111 1, .chars 0x161 1, .chars 0x167 1, .chars 0x17E 1,
   .chars 0x2015 1, .chars 0x16B 1, .chars 0x14B 1, .chars 0x100 1, .chars 0xC1 6, .chars 0x12E 1,
   .chars 0x10C 1, .chars 0xC9 1, .chars 0x118 1, .chars 0xCB 1, .chars 0x116 1, .chars 0xCD 4,
   .chars 0x145 1, .chars 0x14C 1, .chars 0xD3 4, .chars 0x168 1, .chars 0xD8 1, .chars 0x172 1,
   .chars 0xDA 6, .chars 0x101 1, .chars 0xE1 6, .chars 0x12F 1, .chars 0x10D 1, .chars 0xE9 1,
   .chars 0x119 1, .chars 0xEB 1, .chars 0x117 1, .chars 0xED 4, .chars 0x146 1, .chars 0x14D 1,
   .chars 0xF3 4, .chars 0x169 1, .chars 0xF8 1, .chars 0x173 1, .chars 0xFA 5, .chars 0x138 1]

def iso8859x13Runs : List Run :=
  [.chars 0x80 33, .chars 0x201D 1, .chars 0xA2 3, .chars 0x201E 1, .chars 0xA6 2, .chars 0xD8 1,
   .chars 0xA9 1, .chars 0x156 1, .chars 0xAB 4, .chars 0xC6 1, .chars 0xB0 4, .chars 0x201C 1,
   .chars 0xB5 3, .chars 0xF8 1, .chars 0xB9 1, .chars 0x157 1, .chars 0xBB 4, .chars 0xE6 1,
   .chars 0x104 1, .chars 0x12E 1, .chars 0x100 1, .chars 0x106 1, .chars 0xC4 2, .chars 0x118 1,
   .chars 0x112 1, .chars 0x10C 1, .chars 0xC9 1, .chars 0x179 1, .chars 0x116 1, .chars 0x122 1,
   .chars 0x136 1, .chars 0x12A 1, .chars 0x13B 1, .chars 0x160 1, .chars 0x143 1, .chars 0x145 1,
   .chars 0xD3 1, .chars 0x14C 1, .chars 0xD5 3, .chars 0x172 1, .chars 0x141 1, .chars 0x15A 1,
   .chars 0x16A 1, .chars 0xDC 1, .chars 0x17B 1, .chars 0x17D 1, .chars 0xDF 1, .chars 0x105 1,
   .chars 0x12F 1, .chars 0x101 1, .chars 0x107 1, .chars 0xE4 2, .chars 0x119 1, .chars 0x113 1,
   .chars 0x10D 1, .chars 0xE9 1, .chars 0x17A 1, .chars 0x117 1, .chars 0x123 1, .chars 0x137 1,
   .chars 0x12B 1, .chars 0x13C 1, .chars 0x161 1, .chars 0x144 1, .chars 0x146 1, .chars 0xF3 1,
   .chars 0x14D 1, .chars 0xF5 3, .chars 0x173 1, .chars 0x142 1, .chars 0x15B 1, .chars 0x16B 1,
   .chars 0xFC 1, .chars 0x17C 1, .chars 0x17E 1, .chars 0x2019 1]

def iso8859x14Runs : List Run :=
  [.chars 0x80 33, .chars 0x1E02 2, .chars 0xA3 1, .chars 0x10A 2, .chars 0x1E0A 1, .chars 0xA7 1,
   .chars 0x1E80 1, .chars 0xA9 1, .chars 0x1E82 1, .chars 0x1E0B 1, .chars 0x1EF2 1,
   .chars 0xAD 2, .chars 0x178 1, .chars 0x1E1E 2, .chars 0x120 2, .chars 0x1E40 2, .chars 0xB6 1,
   .chars 0x1E56 1, .chars 0x1E81 1, .chars 0x1E57 1, .chars 0x1E83 1, .chars 0x1E60 1,
   .chars 0x1EF3 1, .chars 0x1E84 2, .chars 0x1E61 1, .chars 0xC0 16, .chars 0x174 1,
   .chars 0xD1 6, .chars 0x1E6A 1, .chars 0xD8 6, .chars 0x176 1, .chars 0xDF 17, .chars 0x175 1,
   .chars 0xF1 6, .chars 0x1E6B 1, .chars 0xF8 6, .chars 0x177 1, .chars 0xFF 1]

def iso8859x15Runs : List Run :=
  [.chars 0x80 36, .chars 0x20AC 1, .chars 0xA5 1, .chars 0x160 1, .chars 0xA7 1, .chars 0x161 1,
   .chars 0xA9 11, .chars 0x17D 1, .chars 0xB5 3, .chars 0x17E 1, .chars 0xB9 3, .chars 0x152 2,
   .chars 0x178 1, .chars 0xBF 65]

def iso8859x16Runs : List Run :=
  [.chars 0x80 33, .chars 0x104 2, .chars 0x141 1, .chars 0x20AC 1, .chars 0x201E 1,
   .chars 0x160 1, .chars 0xA7 1, .chars 0x161 1, .chars 0xA9 1, .chars 0x218 1, .chars 0xAB 1,
   .chars 0x179 1, .chars 0xAD 1, .chars 0x17A 2, .chars 0xB0 2, .chars 0x10C 1, .chars 0x142 1,
   .chars 0x17D 1, .chars 0x201D 1, .chars 0xB6 2, .chars 0x17E 1, .chars 0x10D 1, .chars 0x219 1,
   .chars 0xBB 1, .chars 0x152 2, .chars 0x178 1, .chars 0x17C 1, .chars 0xC0 3, .chars 0x102 1,
   .chars 0xC4 1, .chars 0x106 1, .chars 0xC6 10, .chars 0x110 1, .chars 0x143 1, .chars 0xD2 3,
   .chars 0x150 1, .chars 0xD6 1, .chars 0x15A 1, .chars 0x170 1, .chars 0xD9 4, .chars 0x118 1,
   .chars 0x21A 1, .chars 0xDF 4, .chars 0x103 1, .chars 0xE4 1, .chars 0x107 1, .chars 0xE6 10,
   .chars 0x111 1, .chars 0x144 1, .chars 0xF2 3, .chars 0x151 1, .chars 0xF6 1, .chars 0x15B 1,
   .chars 0x171 1, .chars 0xF9 4, .chars 0x119 1, .chars 0x21B 1, .chars 0xFF 1]

def iso8859x2Runs : List Run :=
  [.chars 0x80 33, .chars 0x104 1, .chars 0x2D8 1, .chars 0x141 1, .chars 0xA4 1, .chars 0x13D 1,
   .chars 0x15A 1, .chars 0xA7 2, .chars 0x160 1, .chars 0x15E 1, .chars 0x164 1, .chars 0x179 1,
   .chars 0xAD 1, .chars 0x17D 1, .chars 0x17B 1, .chars 0xB0 1, .chars 0x105 1, .chars 0x2DB 1,
   .chars 0x142 1, .chars 0xB4 1, .chars 0x13E 1, .chars 0x15B 1, .chars 0x2C7 1, .chars 0xB8 1,
   .chars 0x161 1, .chars 0x15F 1, .chars 0x165 1, .chars 0x17A 1, .chars 0x2DD 1, .chars 0x17E 1,
   .chars 0x17C 1, .chars 0x154 1, .chars 0xC1 2, .chars 0x102 1, .chars 0xC4 1, .chars 0x139 1,
   .chars 0x106 1, .chars 0xC7 1, .chars 0x10C 1, .chars 0xC9 1, .chars 0x118 1, .chars 0xCB 1,
   .chars 0x11A 1, .chars 0xCD 2, .chars 0x10E 1, .chars 0x110 1, .chars 0x143 1, .chars 0x147 1,
   .chars 0xD3 2, .chars 0x150 1, .chars 0xD6 2, .chars 0x158 1, .chars 0x16E 1, .chars 0xDA 1,
   .chars 0x170 1, .chars 0xDC 2, .chars 0x162 1, .chars 0xDF 1, .chars 0x155 1, .chars 0xE1 2,
   .chars 0x103 1, .chars 0xE4 1, .chars 0x13A 1, .chars 0x107 1, .chars 0xE7 1, .chars 0x10D 1,
   .chars 0xE9 1, .chars 0x119 1, .chars 0xEB 1, .chars 0x11B 1, .chars 0xED 2, .chars 0x10F 1,
   .chars 0x111 1, .chars 0x144 1, .chars 0x148 1, .chars 0xF3 2, .chars 0x151 1, .chars 0xF6 2,
   .chars 0x159 1, .chars 0x16F 1, .chars 0xFA 1, .chars 0x171 1, .chars 0xFC 2, .chars 0x163 1,
   .chars 0x2D9 1]

def iso8859x3Runs : List Run :=
  [.chars 0x80 33, .chars 0x126 1, .chars 0x2D8 1, .chars 0xA3 2, .gap 1, .chars 0x124 1,
   .chars 0xA7 2, .chars 0x130 1, .chars 0x15E 1, .chars 0x11E 1, .chars 0x134 1, .chars 0xAD 1,
   .gap 1, .chars 0x17B 1, .chars 0xB0 1, .chars 0x127 1, .chars 0xB2 4, .chars 0x125 1,
   .chars 0xB7 2, .chars 0x131 1, .chars 0x15F 1, .chars 0x11F 1, .chars 0x135 1, .chars 0xBD 1,
   .gap 1, .chars 0x17C 1, .chars 0xC0 3, .gap 1, .chars 0xC4 1, .chars 0x10A 1, .chars 0x108 1,
   .chars 0xC7 9, .gap 1, .chars 0xD1 4, .chars 0x120 1, .chars 0xD6 2, .chars 0x11C 1,
   .chars 0xD9 4, .chars 0x16C 1, .chars 0x15C 1, .chars 0xDF 4, .gap 1, .chars 0xE4 1,
   .chars 0x10B 1, .chars 0x109 1, .chars 0xE7 9, .gap 1, .chars 0xF1 4, .chars 0x121 1,
   .chars 0xF6 2, .chars 0x11D 1, .chars 0xF9 4, .chars 0x16D 1, .chars 0x15D 1, .chars 0x2D9 1]

def iso8859x4Runs : List Run :=
  [.chars 0x80 33, .chars 0x104 1, .chars 0x138 1, .chars 0x156 1, .chars 0xA4 1, .chars 0x128 1,
   .chars 0x13B 1, .chars 0xA7 2, .chars 0x160 1, .chars 0x112 1, .chars 0x122 1, .chars 0x166 1,
   .chars 0xAD 1, .chars 0x17D 1, .chars 0xAF 2, .chars 0x105 1, .chars 0x2DB 1, .chars 0x157 1,
   .chars 0xB4 1, .chars 0x129 1, .chars 0x13C 1, .chars 0x2C7 1, .chars 0xB8 1, .chars 0x161 1,
   .chars 0x113 1, .chars 0x123 1, .chars 0x167 1, .chars 0x14A 1, .chars 0x17E 1, .chars 0x14B 1,
   .chars 0x100 1, .chars 0xC1 6, .chars 0x12E 1, .chars 0x10C 1, .chars 0xC9 1, .chars 0x118 1,
   .chars 0xCB 1, .chars 0x116 1, .chars 0xCD 2, .chars 0x12A 1, .chars 0x110 1, .chars 0x145 1,
   .chars 0x14C 1, .chars 0x136 1, .chars 0xD4 5, .chars 0x172 1, .chars 0xDA 3, .chars 0x168 1,
   .chars 0x16A 1, .chars 0xDF 1, .chars 0x101 1, .chars 0xE1 6, .chars 0x12F 1, .chars 0x10D 1,
   .chars 0xE9 1, .chars 0x119 1, .chars 0xEB 1, .chars 0x117 1, .chars 0xED 2, .chars 0x12B 1,
   .chars 0x111 1, .chars 0x146 1, .chars 0x14D 1, .chars 0x137 1, .chars 0xF4 5, .chars 0x173 1,
   .chars 0xFA 3, .chars 0x169 1, .chars 0x16B 1, .chars 0x2D9 1]

def iso8859x5Runs : List Run :=
  [.chars 0x80 33, .chars 0x401 12, .chars 0xAD 1, .chars 0x40E 66, .chars 0x2116 1,
   .chars 0x451 12, .chars 0xA7 1, .chars 0x45E 2]

def iso8859x6Runs : List Run :=
  [.chars 0x80 33, .gap 3, .chars 0xA4 1, .gap 7, .chars 0x60C 1, .chars 0xAD 1, .gap 13,
   .chars 0x61B 1, .gap 3, .chars 0x61F 1, .gap 1, .chars 0x621 26, .gap 5, .chars 0x640 19,
   .gap 13]

def iso8859x7Runs : List Run :=
  [.chars 0x80 33, .chars 0x2018 2, .chars 0xA3 1, .chars 0x20AC 1, .chars 0x20AF 1,
   .chars 0xA6 4, .chars 0x37A 1, .chars 0xAB 3, .gap 1, .chars 0x2015 1, .chars 0xB0 4,
   .chars 0x384 3, .chars 0xB7 1, .chars 0x388 3, .chars 0xBB 1, .chars 0x38C 1, .chars 0xBD 1,
   .chars 0x38E 20, .gap 1, .chars 0x3A3 44, .gap 1]

def iso8859x8Runs : List Run :=
  [.chars 0x80 33, .gap 1, .chars 0xA2 8, .chars 0xD7 1, .chars 0xAB 15, .chars 0xF7 1,
   .chars 0xBB 4, .gap 32, .chars 0x2017 1, .chars 0x5D0 27, .gap 2, .chars 0x200E 2, .gap 1]

def koi8RRuns : List Run :=
  [.chars 0x2500 1, .chars 0x2502 1, .chars 0x250C 1, .chars 0x2510 1, .chars 0x2514 1,
   .chars 0x2518 1, .chars 0x251C 1, .chars 0x2524 1, .chars 0x252C 1, .chars 0x2534 1,
   .chars 0x253C 1, .chars 0x2580 1, .chars 0x2584 1, .chars 0x2588 1, .chars 0x258C 1,
   .chars 0x2590 4, .chars 0x2320 1, .chars 0x25A0 1, .chars 0x2219 2, .chars 0x2248 1,
   .chars 0x2264 2, .chars 0xA0 1, .chars 0x2321 1, .chars 0xB0 1, .chars 0xB2 1, .chars 0xB7 1,
   .chars 0xF7 1, .chars 0x2550 3, .chars 0x451 1, .chars 0x2553 15, .chars 0x401 1,
   .chars 0x2562 11, .chars 0xA9 1, .chars 0x44E 1, .chars 0x430 2, .chars 0x446 1,
   .chars 0x434 2, .chars 0x444 1, .chars 0x433 1, .chars 0x445 1, .chars 0x438 8, .chars 0x44F 1,
   .chars 0x440 4, .chars 0x436 1, .chars 0x432 1, .chars 0x44C 1, .chars 0x44B 1, .chars 0x437 1,
   .chars 0x448 1, .chars 0x44D 1, .chars 0x449 1, .chars 0x447 1, .chars 0x44A 1, .chars 0x42E 1,
   .chars 0x410 2, .chars 0x426 1, .chars 0x414 2, .chars 0x424 1, .chars 0x413 1, .chars 0x425 1,
   .chars 0x418 8, .chars 0x42F 1, .chars 0x420 4, .chars 0x416 1, .chars 0x412 1, .chars 0x42C 1,
   .chars 0x42B 1, .chars 0x417 1, .chars 0x428 1, .chars 0x42D 1, .chars 0x429 1, .chars 0x427 1,
   .chars 0x42A 1]

def koi8URuns : List Run :=
  [.chars 0x2500 1, .chars 0x2502 1, .chars 0x250C 1, .chars 0x2510 1, .chars 0x2514 1,
   .chars 0x2518 1, .chars 0x251C 1, .chars 0x2524 1, .chars 0x252C 1, .chars 0x2534 1,
   .chars 0x253C 1, .chars 0x2580 1, .chars 0x2584 1, .chars 0x2588 1, .chars 0x258C 1,
   .chars 0x2590 4, .chars 0x2320 1, .chars 0x25A0 1, .chars 0x2219 2, .chars 0x2248 1,
   .chars 0x2264 2, .chars 0xA0 1, .chars 0x2321 1, .chars 0xB0 1, .chars 0xB2 1, .chars 0xB7 1,
   .chars 0xF7 1, .chars 0x2550 3, .chars 0x451 1, .chars 0x454 1, .chars 0x2554 1,
   .chars 0x456 2, .chars 0x2557 5, .chars 0x491 1, .chars 0x45E 1, .chars 0x255E 4,
   .chars 0x401 1, .chars 0x404 1, .chars 0x2563 1, .chars 0x406 2, .chars 0x2566 5,
   .chars 0x490 1, .chars 0x40E 1, .chars 0xA9 1, .chars 0x44E 1, .chars 0x430 2, .chars 0x446 1,
   .chars 0x434 2, .chars 0x444 1, .chars 0x433 1, .chars 0x445 1, .chars 0x438 8, .chars 0x44F 1,
   .chars 0x440 4, .chars 0x436 1, .chars 0x432 1, .chars 0x44C 1, .chars 0x44B 1, .chars 0x437 1,
   .chars 0x448 1, .chars 0x44D 1, .chars 0x449 1, .chars 0x447 1, .chars 0x44A 1, .chars 0x42E 1,
   .chars 0x410 2, .chars 0x426 1, .chars 0x414 2, .chars 0x424 1, .chars 0x413 1, .chars 0x425 1,
   .chars 0x418 8, .chars 0x42F 1, .chars 0x420 4, .chars 0x416 1, .chars 0x412 1, .chars 0x42C 1,
   .chars 0x42B 1, .chars 0x417 1, .chars 0x428 1, .chars 0x42D 1, .chars 0x429 1, .chars 0x427 1,
   .chars 0x42A 1]

def macintoshRuns : List Run :=
  [.chars 0xC4 2, .chars 0xC7 1, .chars 0xC9 1, .chars 0xD1 1, .chars 0xD6 1, .chars 0xDC 1,
   .chars 0xE1 1, .chars 0xE0 1, .chars 0xE2 1, .chars 0xE4 1, .chars 0xE3 1, .chars 0xE5 1,
   .chars 0xE7 1, .chars 0xE9 1, .chars 0xE8 1, .chars 0xEA 2, .chars 0xED 1, .chars 0xEC 1,
   .chars 0xEE 2, .chars 0xF1 1, .chars 0xF3 1, .chars 0xF2 1, .chars 0xF4 1, .chars 0xF6 1,
   .chars 0xF5 1, .chars 0xFA 1, .chars 0xF9 1, .chars 0xFB 2, .chars 0x2020 1, .chars 0xB0 1,
   .chars 0xA2 2, .chars 0xA7 1, .chars 0x2022 1, .chars 0xB6 1, .chars 0xDF 1, .chars 0xAE 1,
   .chars 0xA9 1, .chars 0x2122 1, .chars 0xB4 1, .chars 0xA8 1, .chars 0x2260 1, .chars 0xC6 1,
   .chars 0xD8 1, .chars 0x221E 1, .chars 0xB1 1, .chars 0x2264 2, .chars 0xA5 1, .chars 0xB5 1,
   .chars 0x2202 1, .chars 0x2211 1, .chars 0x220F 1, .chars 0x3C0 1, .chars 0x222B 1,
   .chars 0xAA 1, .chars 0xBA 1, .chars 0x3A9 1, .chars 0xE6 1, .chars 0xF8 1, .chars 0xBF 1,
   .chars 0xA1 1, .chars 0xAC 1, .chars 0x221A 1, .chars 0x192 1, .chars 0x2248 1,
   .chars 0x2206 1, .chars 0xAB 1, .chars 0xBB 1, .chars 0x2026 1, .chars 0xA0 1, .chars 0xC0 1,
   .chars 0xC3 1, .chars 0xD5 1, .chars 0x152 2, .chars 0x2013 2, .chars 0x201C 2,
   .chars 0x2018 2, .chars 0xF7 1, .chars 0x25CA 1, .chars 0xFF 1, .chars 0x178 1,
   .chars 0x2044 1, .chars 0x20AC 1, .chars 0x2039 2, .chars 0xFB01 2, .chars 0x2021 1,
   .chars 0xB7 1, .chars 0x201A 1, .chars 0x201E 1, .chars 0x2030 1, .chars 0xC2 1, .chars 0xCA 1,
   .chars 0xC1 1, .chars 0xCB 1, .chars 0xC8 1, .chars 0xCD 3, .chars 0xCC 1, .chars 0xD3 2,
   .chars 0xF8FF 1, .chars 0xD2 1, .chars 0xDA 2, .chars 0xD9 1, .chars 0x131 1, .chars 0x2C6 1,
   .chars 0x2DC 1, .chars 0xAF 1, .chars 0x2D8 3, .chars 0xB8 1, .chars 0x2DD 1, .chars 0x2DB 1,
   .chars 0x2C7 1]

def windows1250Runs : List Run :=
  [.chars 0x20AC 1, .chars 0x81 1, .chars 0x201A 1, .chars 0x83 1, .chars 0x201E 1,
   .chars 0x2026 1, .chars 0x2020 2, .chars 0x88 1, .chars 0x2030 1, .chars 0x160 1,
   .chars 0x2039 1, .chars 0x15A 1, .chars 0x164 1, .chars 0x17D 1, .chars 0x179 1, .chars 0x90 1,
   .chars 0x2018 2, .chars 0x201C 2, .chars 0x2022 1, .chars 0x2013 2, .chars 0x98 1,
   .chars 0x2122 1, .chars 0x161 1, .chars 0x203A 1, .chars 0x15B 1, .chars 0x165 1,
   .chars 0x17E 1, .chars 0x17A 1, .chars 0xA0 1, .chars 0x2C7 1, .chars 0x2D8 1, .chars 0x141 1,
   .chars 0xA4 1, .chars 0x104 1, .chars 0xA6 4, .chars 0x15E 1, .chars 0xAB 4, .chars 0x17B 1,
   .chars 0xB0 2, .chars 0x2DB 1, .chars 0x142 1, .chars 0xB4 5, .chars 0x105 1, .chars 0x15F 1,
   .chars 0xBB 1, .chars 0x13D 1, .chars 0x2DD 1, .chars 0x13E 1, .chars 0x17C 1, .chars 0x154 1,
   .chars 0xC1 2, .chars 0x102 1, .chars 0xC4 1, .chars 0x139 1, .chars 0x106 1, .chars 0xC7 1,
   .chars 0x10C 1, .chars 0xC9 1, .chars 0x118 1, .chars 0xCB 1, .chars 0x11A 1, .chars 0xCD 2,
   .chars 0x10E 1, .chars 0x110 1, .chars 0x143 1, .chars 0x147 1, .chars 0xD3 2, .chars 0x150 1,
   .chars 0xD6 2, .chars 0x158 1, .chars 0x16E 1, .chars 0xDA 1, .chars 0x170 1, .chars 0xDC 2,
   .chars 0x162 1, .chars 0xDF 1, .chars 0x155 1, .chars 0xE1 2, .chars 0x103 1, .chars 0xE4 1,
   .chars 0x13A 1, .chars 0x107 1, .chars 0xE7 1, .chars 0x10D 1, .chars 0xE9 1, .chars 0x119 1,
   .chars 0xEB 1, .chars 0x11B 1, .chars 0xED 2, .chars 0x10F 1, .chars 0x111 1, .chars 0x144 1,
   .chars 0x148 1, .chars 0xF3 2, .chars 0x151 1, .chars 0xF6 2, .chars 0x159 1, .chars 0x16F 1,
   .chars 0xFA 1, .chars 0x171 1, .chars 0xFC 2, .chars 0x163 1, .chars 0x2D9 1]

def windows1251Runs : List Run :=
  [.chars 0x402 2, .chars 0x201A 1, .chars 0x453 1, .chars 0x201E 1, .chars 0x2026 1,
   .chars 0x2020 2, .chars 0x20AC 1, .chars 0x2030 1, .chars 0x409 1, .chars 0x2039 1,
   .chars 0x40A 1, .chars 0x40C 1, .chars 0x40B 1, .chars 0x40F 1, .chars 0x452 1,
   .chars 0x2018 2, .chars 0x201C 2, .chars 0x2022 1, .chars 0x2013 2, .chars 0x98 1,
   .chars 0x2122 1, .chars 0x459 1, .chars 0x203A 1, .chars 0x45A 1, .chars 0x45C 1,
   .chars 0x45B 1, .chars 0x45F 1, .chars 0xA0 1, .chars 0x40E 1, .chars 0x45E 1, .chars 0x408 1,
   .chars 0xA4 1, .chars 0x490 1, .chars 0xA6 2, .chars 0x401 1, .chars 0xA9 1, .chars 0x404 1,
   .chars 0xAB 4, .chars 0x407 1, .chars 0xB0 2, .chars 0x406 1, .chars 0x456 1, .chars 0x491 1,
   .chars 0xB5 3, .chars 0x451 1, .chars 0x2116 1, .chars 0x454 1, .chars 0xBB 1, .chars 0x458 1,
   .chars 0x405 1, .chars 0x455 1, .chars 0x457 1, .chars 0x410 64]

def windows1252Runs : List Run :=
  [.chars 0x20AC 1, .chars 0x81 1, .chars 0x201A 1, .chars 0x192 1, .chars 0x201E 1,
   .chars 0x2026 1, .chars 0x2020 2, .chars 0x2C6 1, .chars 0x2030 1, .chars 0x160 1,
   .chars 0x2039 1, .chars 0x152 1, .chars 0x8D 1, .chars 0x17D 1, .chars 0x8F 2, .chars 0x2018 2,
   .chars 0x201C 2, .chars 0x2022 1, .chars 0x2013 2, .chars 0x2DC 1, .chars 0x2122 1,
   .chars 0x161 1, .chars 0x203A 1, .chars 0x153 1, .chars 0x9D 1, .chars 0x17E 1, .chars 0x178 1,
   .chars 0xA0 96]

def windows1253Runs : List Run :=
  [.chars 0x20AC 1, .chars 0x81 1, .chars 0x201A 1, .chars 0x192 1, .chars 0x201E 1,
   .chars 0x2026 1, .chars 0x2020 2, .chars 0x88 1, .chars 0x2030 1, .chars 0x8A 1,
   .chars 0x2039 1, .chars 0x8C 5, .chars 0x2018 2, .chars 0x201C 2, .chars 0x2022 1,
   .chars 0x2013 2, .chars 0x98 1, .chars 0x2122 1, .chars 0x9A 1, .chars 0x203A 1, .chars 0x9C 5,
   .chars 0x385 2, .chars 0xA3 7, .gap 1, .chars 0xAB 4, .chars 0x2015 1, .chars 0xB0 4,
   .chars 0x384 1, .chars 0xB5 3, .chars 0x388 3, .chars 0xBB 1, .chars 0x38C 1, .chars 0xBD 1,
   .chars 0x38E 20, .gap 1, .chars 0x3A3 44, .gap 1]

def windows1254Runs : List Run :=
  [.chars 0x20AC 1, .chars 0x81 1, .chars 0x201A 1, .chars 0x192 1, .chars 0x201E 1,
   .chars 0x2026 1, .chars 0x2020 2, .chars 0x2C6 1, .chars 0x2030 1, .chars 0x160 1,
   .chars 0x2039 1, .chars 0x152 1, .chars 0x8D 4, .chars 0x2018 2, .chars 0x201C 2,
   .chars 0x2022 1, .chars 0x2013 2, .chars 0x2DC 1, .chars 0x2122 1, .chars 0x161 1,
   .chars 0x203A 1, .chars 0x153 1, .chars 0x9D 2, .chars 0x178 1, .chars 0xA0 48, .chars 0x11E 1,
   .chars 0xD1 12, .chars 0x130 1, .chars 0x15E 1, .chars 0xDF 17, .chars 0x11F 1, .chars 0xF1 12,
   .chars 0x131 1, .chars 0x15F 1, .chars 0xFF 1]

def windows1255Runs : List Run :=
  [.chars 0x20AC 1, .chars 0x81 1, .chars 0x201A 1, .chars 0x192 1, .chars 0x201E 1,
   .chars 0x2026 1, .chars 0x2020 2, .chars 0x2C6 1, .chars 0x2030 1, .chars 0x8A 1,
   .chars 0x2039 1, .chars 0x8C 5, .chars 0x2018 2, .chars 0x201C 2, .chars 0x2022 1,
   .chars 0x2013 2, .chars 0x2DC 1, .chars 0x2122 1, .chars 0x9A 1, .chars 0x203A 1,
   .chars 0x9C 8, .chars 0x20AA 1, .chars 0xA5 5, .chars 0xD7 1, .chars 0xAB 15, .chars 0xF7 1,
   .chars 0xBB 5, .chars 0x5B0 20, .chars 0x5F0 5, .gap 7, .chars 0x5D0 27, .gap 2,
   .chars 0x200E 2, .gap 1]

def windows1256Runs : List Run :=
  [.chars 0x20AC 1, .chars 0x67E 1, .chars 0x201A 1, .chars 0x192 1, .chars 0x201E 1,
   .chars 0x2026 1, .chars 0x2020 2, .chars 0x2C6 1, .chars 0x2030 1, .chars 0x679 1,
   .chars 0x2039 1, .chars 0x152 1, .chars 0x686 1, .chars 0x698 1, .chars 0x688 1,
   .chars 0x6AF 1, .chars 0x2018 2, .chars 0x201C 2, .chars 0x2022 1, .chars 0x2013 2,
   .chars 0x6A9 1, .chars 0x2122 1, .chars 0x691 1, .chars 0x203A 1, .chars 0x153 1,
   .chars 0x200C 2, .chars 0x6BA 1, .chars 0xA0 1, .chars 0x60C 1, .chars 0xA2 8, .chars 0x6BE 1,
   .chars 0xAB 15, .chars 0x61B 1, .chars 0xBB 4, .chars 0x61F 1, .chars 0x6C1 1, .chars 0x621 22,
   .chars 0xD7 1, .chars 0x637 4, .chars 0x640 4, .chars 0xE0 1, .chars 0x644 1, .chars 0xE2 1,
   .chars 0x645 4, .chars 0xE7 5, .chars 0x649 2, .chars 0xEE 2, .chars 0x64B 4, .chars 0xF4 1,
   .chars 0x64F 2, .chars 0xF7 1, .chars 0x651 1, .chars 0xF9 1, .chars 0x652 1, .chars 0xFB 2,
   .chars 0x200E 2, .chars 0x6D2 1]

def windows1257Runs : List Run :=
  [.chars 0x20AC 1, .chars 0x81 1, .chars 0x201A 1, .chars 0x83 1, .chars 0x201E 1,
   .chars 0x2026 1, .chars 0x2020 2, .chars 0x88 1, .chars 0x2030 1, .chars 0x8A 1,
   .chars 0x2039 1, .chars 0x8C 1, .chars 0xA8 1, .chars 0x2C7 1, .chars 0xB8 1, .chars 0x90 1,
   .chars 0x2018 2, .chars 0x201C 2, .chars 0x2022 1, .chars 0x2013 2, .chars 0x98 1,
   .chars 0x2122 1, .chars 0x9A 1, .chars 0x203A 1, .chars 0x9C 1, .chars 0xAF 1, .chars 0x2DB 1,
   .chars 0x9F 2, .gap 1, .chars 0xA2 3, .gap 1, .chars 0xA6 2, .chars 0xD8 1, .chars 0xA9 1,
   .chars 0x156 1, .chars 0xAB 4, .chars 0xC6 1, .chars 0xB0 8, .chars 0xF8 1, .chars 0xB9 1,
   .chars 0x157 1, .chars 0xBB 4, .chars 0xE6 1, .chars 0x104 1, .chars 0x12E 1, .chars 0x100 1,
   .chars 0x106 1, .chars 0xC4 2, .chars 0x118 1, .chars 0x112 1, .chars 0x10C 1, .chars 0xC9 1,
   .chars 0x179 1, .chars 0x116 1, .chars 0x122 1, .chars 0x136 1, .chars 0x12A 1, .chars 0x13B 1,
   .chars 0x160 1, .chars 0x143 1, .chars 0x145 1, .chars 0xD3 1, .chars 0x14C 1, .chars 0xD5 3,
   .chars 0x172 1, .chars 0x141 1, .chars 0x15A 1, .chars 0x16A 1, .chars 0xDC 1, .chars 0x17B 1,
   .chars 0x17D 1, .chars 0xDF 1, .chars 0x105 1, .chars 0x12F 1, .chars 0x101 1, .chars 0x107 1,
   .chars 0xE4 2, .chars 0x119 1, .chars 0x113 1, .chars 0x10D 1, .chars 0xE9 1, .chars 0x17A 1,
   .chars 0x117 1, .chars 0x123 1, .chars 0x137 1, .chars 0x12B 1, .chars 0x13C 1, .chars 0x161 1,
   .chars 0x144 1, .chars 0x146 1, .chars 0xF3 1, .chars 0x14D 1, .chars 0xF5 3, .chars 0x173 1,
   .chars 0x142 1, .chars 0x15B 1, .chars 0x16B 1, .chars 0xFC 1, .chars 0x17C 1, .chars 0x17E 1,
   .chars 0x2D9 1]

def windows1258Runs : List Run :=
  [.chars 0x20AC 1, .chars 0x81 1, .chars 0x201A 1, .chars 0x192 1, .chars 0x201E 1,
   .chars 0x2026 1, .chars 0x2020 2, .chars 0x2C6 1, .chars 0x2030 1, .chars 0x8A 1,
   .chars 0x2039 1, .chars 0x152 1, .chars 0x8D 4, .chars 0x2018 2, .chars 0x201C 2,
   .chars 0x2022 1, .chars 0x2013 2, .chars 0x2DC 1, .chars 0x2122 1, .chars 0x9A 1,
   .chars 0x203A 1, .chars 0x153 1, .chars 0x9D 2, .chars 0x178 1, .chars 0xA0 35, .chars 0x102 1,
   .chars 0xC4 8, .chars 0x300 1, .chars 0xCD 3, .chars 0x110 1, .chars 0xD1 1, .chars 0x309 1,
   .chars 0xD3 2, .chars 0x1A0 1, .chars 0xD6 7, .chars 0x1AF 1, .chars 0x303 1, .chars 0xDF 4,
   .chars 0x103 1, .chars 0xE4 8, .chars 0x301 1, .chars 0xED 3, .chars 0x111 1, .chars 0xF1 1,
   .chars 0x323 1, .chars 0xF3 2, .chars 0x1A1 1, .chars 0xF6 7, .chars 0x1B0 1, .chars 0x20AB 1,
   .chars 0xFF 1]

def windows874Runs : List Run :=
  [.chars 0x20AC 1, .chars 0x81 4, .chars 0x2026 1, .chars 0x86 11, .chars 0x2018 2,
   .chars 0x201C 2, .chars 0x2022 1, .chars 0x2013 2, .chars 0x98 9, .chars 0xE01 58, .gap 4,
   .chars 0xE3F 29, .gap 4]

def macCyrillicRuns : List Run :=
  [.chars 0x410 32, .chars 0x2020 1, .chars 0xB0 1, .chars 0x490 1, .chars 0xA3 1, .chars 0xA7 1,
   .chars 0x2022 1, .chars 0xB6 1, .chars 0x406 1, .chars 0xAE 1, .chars 0xA9 1, .chars 0x2122 1,
   .chars 0x402 1, .chars 0x452 1, .chars 0x2260 1, .chars 0x403 1, .chars 0x453 1,
   .chars 0x221E 1, .chars 0xB1 1, .chars 0x2264 2, .chars 0x456 1, .chars 0xB5 1, .chars 0x491 1,
   .chars 0x408 1, .chars 0x404 1, .chars 0x454 1, .chars 0x407 1, .chars 0x457 1, .chars 0x409 1,
   .chars 0x459 1, .chars 0x40A 1, .chars 0x45A 1, .chars 0x458 1, .chars 0x405 1, .chars 0xAC 1,
   .chars 0x221A 1, .chars 0x192 1, .chars 0x2248 1, .chars 0x2206 1, .chars 0xAB 1,
   .chars 0xBB 1, .chars 0x2026 1, .chars 0xA0 1, .chars 0x40B 1, .chars 0x45B 1, .chars 0x40C 1,
   .chars 0x45C 1, .chars 0x455 1, .chars 0x2013 2, .chars 0x201C 2, .chars 0x2018 2,
   .chars 0xF7 1, .chars 0x201E 1, .chars 0x40E 1, .chars 0x45E 1, .chars 0x40F 1, .chars 0x45F 1,
   .chars 0x2116 1, .chars 0x401 1, .chars 0x451 1, .chars 0x44F 1, .chars 0x430 31,
   .chars 0x20AC 1]

/-- The upper half of an encoding with one byte for each character. -/
def upperHalf? : WebEncoding → Option (List Run)
  | ibm866 => some ibm866Runs
  | iso8859x10 => some iso8859x10Runs
  | iso8859x13 => some iso8859x13Runs
  | iso8859x14 => some iso8859x14Runs
  | iso8859x15 => some iso8859x15Runs
  | iso8859x16 => some iso8859x16Runs
  | iso8859x2 => some iso8859x2Runs
  | iso8859x3 => some iso8859x3Runs
  | iso8859x4 => some iso8859x4Runs
  | iso8859x5 => some iso8859x5Runs
  | iso8859x6 => some iso8859x6Runs
  | iso8859x7 => some iso8859x7Runs
  | iso8859x8 => some iso8859x8Runs
  | iso8859x8i => some iso8859x8Runs
  | koi8R => some koi8RRuns
  | koi8U => some koi8URuns
  | macintosh => some macintoshRuns
  | windows1250 => some windows1250Runs
  | windows1251 => some windows1251Runs
  | windows1252 => some windows1252Runs
  | windows1253 => some windows1253Runs
  | windows1254 => some windows1254Runs
  | windows1255 => some windows1255Runs
  | windows1256 => some windows1256Runs
  | windows1257 => some windows1257Runs
  | windows1258 => some windows1258Runs
  | windows874 => some windows874Runs
  | macCyrillic => some macCyrillicRuns
  | userDefined => some [.chars 0xF780 128]
  | _ => none

end WebEncoding
end Sluice

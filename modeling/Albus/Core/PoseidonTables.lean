import Albus.Core.PoseidonHash
import Mathlib.LinearAlgebra.Matrix.NonsingularInverse

/-! # The Poseidon tables of one input

    The first row of each table of `poseidon-constants.json` and
    `poseidon-constants-opt.json`, decoded from base64. -/

namespace Albus.Core.PoseidonOpt

open Albus.Lib Matrix

namespace OneInput

/-- The constants of `poseidon-constants.json` for two elements. -/
def C : List ℕ := [
  0x09c46e9ec68e9bd4fe1faaba294cba38a71aa177534cdd1b6c7dc0dbd0abd7a7,
  0x0c0356530896eec42a97ed937f3135cfc5142b3ae405b8343c1d83ffa604cb81,
  0x1e28a1d935698ad1142e51182bb54cf4a00ea5aabd6268bd317ea977cc154a30,
  0x27af2d831a9d2748080965db30e298e40e5757c3e008db964cf9e2b12b91251f,
  0x1e6f11ce60fc8f513a6a3cfe16ae175a41291462f214cd0879aaf43545b74e03,
  0x2a67384d3bbd5e438541819cb681f0be04462ed14c3613d8f719206268d142d3,
  0x0b66fdf356093a611609f8e12fbfecf0b985e381f025188936408f5d5c9f45d0,
  0x012ee3ec1e78d470830c61093c2ade370b26c83cc5cebeeddaa6852dbdb09e21,
  0x0252ba5f6760bfbdfd88f67f8175e3fd6cd1c431b099b6bb2d108e7b445bb1b9,
  0x179474cceca5ff676c6bec3cef54296354391a8935ff71d6ef5aeaad7ca932f1,
  0x2c24261379a51bfa9228ff4a503fd4ed9c1f974a264969b37e1a2589bbed2b91,
  0x1cc1d7b62692e63eac2f288bd0695b43c2f63f5001fc0fc553e66c0551801b05,
  0x255059301aada98bb2ed55f852979e9600784dbf17fbacd05d9eff5fd9c91b56,
  0x28437be3ac1cb2e479e1f5c0eccd32b3aea24234970a8193b11c29ce7e59efd9,
  0x28216a442f2e1f711ca4fa6b53766eb118548da8fb4f78d4338762c37f5f2043,
  0x2c1f47cd17fa5adf1f39f4e7056dd03feee1efce03094581131f2377323482c9,
  0x07abad02b7a5ebc48632bcc9356ceb7dd9dafca276638a63646b8566a621afc9,
  0x0230264601ffdf29275b33ffaab51dfe9429f90880a69cd137da0c4d15f96c3c,
  0x1bc973054e51d905a0f168656497ca40a864414557ee289e717e5d66899aa0a9,
  0x2e1c22f964435008206c3157e86341edd249aff5c2d8421f2a6b22288f0a67fc,
  0x1224f38df67c5378121c1d5f461bbc509e8ea1598e46c9f7a70452bc2bba86b8,
  0x02e4e69d8ba59e519280b4bd9ed0068fd7bfe8cd9dfeda1969d2989186cde20e,
  0x1f1eccc34aaba0137f5df81fc04ff3ee4f19ee364e653f076d47e9735d98018e,
  0x1672ad3d709a353974266c3039a9a7311424448032cd1819eacb8a4d4284f582,
  0x283e3fdc2c6e420c56f44af5192b4ae9cda6961f284d24991d2ed602df8c8fc7,
  0x1c2a3d120c550ecfd0db0957170fa013683751f8fdff59d6614fbd69ff394bcc,
  0x216f84877aac6172f7897a7323456efe143a9a43773ea6f296cb6b8177653fbd,
  0x2c0d272becf2a75764ba7e8e3e28d12bceaa47ea61ca59a411a1f51552f94788,
  0x16e34299865c0e28484ee7a74c454e9f170a5480abe0508fcb4a6c3d89546f43,
  0x175ceba599e96f5b375a232a6fb9cc71772047765802290f48cd939755488fc5,
  0x0c7594440dc48c16fead9e1758b028066aa410bfbc354f54d8c5ffbb44a1ee32,
  0x1a3c29bc39f21bb5c466db7d7eb6fd8f760e20013ccf912c92479882d919fd8d,
  0x0ccfdd906f3426e5c0986ea049b253400855d349074f5a6695c8eeabcd22e68f,
  0x14f6bc81d9f186f62bdb475ce6c9411866a7a8a3fd065b3ce0e699b67dd9e796,
  0x0962b82789fb3d129702ca70b2f6c5aacc099810c9c495c888edeb7386b97052,
  0x1a880af7074d18b3bf20c79de25127bc13284ab01ef02575afef0c8f6a31a86d,
  0x10cba18419a6a332cd5e77f0211c154b20af2924fc20ff3f4c3012bb7ae9311b,
  0x057e62a9a8f89b3ebdc76ba63a9eaca8fa27b7319cae3406756a2849f302f10d,
  0x287c971de91dc0abd44adf5384b4988cb961303bbf65cff5afa0413b44280cee,
  0x21df3388af1687bbb3bca9da0cca908f1e562bc46d4aba4e6f7f7960e306891d,
  0x1be5c887d25bce703e25cc974d0934cd789df8f70b498fd83eff8b560e1682b3,
  0x268da36f76e568fb68117175cea2cd0dd2cb5d42fda5acea48d59c2706a0d5c1,
  0x0e17ab091f6eae50c609beaf5510ececc5d8bb74135ebd05bd06460cc26a5ed6,
  0x04d727e728ffa0a67aee535ab074a43091ef62d8cf83d270040f5caa1f62af40,
  0x0ddbd7bf9c29341581b549762bc022ed33702ac10f1bfd862b15417d7e39ca6e,
  0x2790eb3351621752768162e82989c6c234f5b0d1d3af9b588a29c49c8789654b,
  0x1e457c601a63b73e4471950193d8a570395f3d9ab8b2fd0984b764206142f9e9,
  0x21ae64301dca9625638d6ab2bbe7135ffa90ecd0c43ff91fc4c686fc46e091b0,
  0x0379f63c8ce3468d4da293166f494928854be9e3432e09555858534eed8d350b,
  0x002d56420359d0266a744a080809e054ca0e4921a46686ac8c9f58a324c35049,
  0x123158e5965b5d9b1d68b3cd32e10bbeda8d62459e21f4090fc2c5af963515a6,
  0x0be29fc40847a941661d14bbf6cbe0420fbb2b6f52836d4e60c80eb49cad9ec1,
  0x1ac96991dec2bb0557716142015a453c36db9d859cad5f9a233802f24fdf4c1a,
  0x1596443f763dbcc25f4964fc61d23b3e5e12c9fa97f18a9251ca3355bcb0627e,
  0x12e0bcd3654bdfa76b2861d4ec3aeae0f1857d9f17e715aed6d049eae3ba3212,
  0x0fc92b4f1bbea82b9ea73d4af9af2a50ceabac7f37154b1904e6c76c7cf964ba,
  0x1f9c0b1610446442d6f2e592a8013f40b14f7c7722236f4f9c7e965233872762,
  0x0ebd74244ae72675f8cde06157a782f4050d914da38b4c058d159f643dbbf4d3,
  0x2cb7f0ed39e16e9f69a9fafd4ab951c03b0671e97346ee397a839839dccfc6d1,
  0x1a9d6e2ecff022cc5605443ee41bab20ce761d0514ce526690c72bca7352d9bf,
  0x2a115439607f335a5ea83c3bc44a9331d0c13326a9a7ba3087da182d648ec72f,
  0x23f9b6529b5d040d15b8fa7aee3e3410e738b56305cd44f29535c115c5a4c060,
  0x05872c16db0f72a2249ac6ba484bb9c3a3ce97c16d58b68b260eb939f0e6e8a7,
  0x1300bdee08bb7824ca20fb80118075f40219b6151d55b5c52b624a7cdeddf6a7,
  0x19b9b63d2f108e17e63817863a8f6c288d7ad29916d98cb1072e4e7b7d52b376,
  0x015bee1357e3c015b5bda237668522f613d1c88726b5ec4224a20128481b4f7f,
  0x2953736e94bb6b9f1b9707a4f1615e4efe1e1ce4bab218cbea92c785b128ffd1,
  0x0b069353ba091618862f806180c0385f851b98d372b45f544ce7266ed6608dfc,
  0x304f74d461ccc13115e4e0bcfb93817e55aeb7eb9306b64e4f588ac97d81f429,
  0x15bbf146ce9bca09e8a33f5e77dfe4f5aad2a164a4617a4cb8ee5415cde913fc,
  0x0ab4dfe0c2742cde44901031487964ed9b8f4b850405c10ca9ff23859572c8c6,
  0x0e32db320a044e3197f45f7649a19675ef5eedfea546dea9251de39f9639779a,
  0x0a1756aa1f378ca4b27635a78b6888e66797733a82774896a3078efa516da016,
  0x044c4a33b10f693447fd17177f952ef895e61d328f85efa94254d6a2a25d93ef,
  0x2ed3611b725b8a70be655b537f66f700fe0879d79a496891d37b07b5466c4b8b,
  0x1f9ba4e8bab7ce42c8ecc3d722aa2e0eadfdeb9cfdd347b5d8339ea7120858aa,
  0x1b233043052e8c288f7ee907a84e518aa38e82ac4502066db74056f865c5d3da,
  0x2431e1cc164bb8d074031ab72bd55b4c902053bfc0f14db0ca2f97b020875954,
  0x082f934c91f5aac330cd6953a0a7db45a13e322097583319a791f273965801fd,
  0x2b9a0a223e7538b0a34be074315542a3c77245e2ae7cbe999ad6bb930c48997c,
  0x0e1cd91edd2cfa2cceb85483b887a9be8164163e75a8a00eb0b589cc70214e7d,
  0x2e1eac0f2bfdfd63c951f61477e3698999774f19854d00f588d324601cebe2f9,
  0x0cbfa95f37fb74060c76158e769d6d157345784d8efdb33c23d748115b500b83,
  0x08f05b3be923ed44d65ad49d8a61e9a676d991e3a77513d9980c232dfa4a4f84,
  0x22719e2a070bcd0852bf8e21984d0443e7284925dc0758a325a2dd510c047ef6,
  0x041f596a9ee1cb2bc060f7fcc3a1ab4c7bdbf036119982c0f41f62b2f26830c0,
  0x233fd35de1be520a87628eb06f6b1d4c021be1c2d0dc464a19fcdd0986b10f89,
  0x0524b46d1aa87a5e4325e0a423ebc810d31e078aa1b4707eefcb453c61c9c267,
  0x2c34f424c81e5716ce47fcac894b85824227bb954b0f3199cc4486237c515211,
  0x0b5f2a4b63387819207effc2b5541fb72dd2025b5457cc97f33010327de4915e,
  0x22207856082ccc54c5b72fe439d2cfd6c17435d2f57af6ceaefac41fe05c659f,
  0x24d57a8bf5da63fe4e24159b7f8950b5cdfb210194caf79f27854048ce2c8171,
  0x0afab181fdd5e0583b371d75bd693f98374ad7097bb01a8573919bb23b79396e,
  0x2dba9b108f208772998a52efac7cbd5676c0057194c16c0bf16290d62b1128ee,
  0x26349b66edb8b16f56f881c788f53f83cbb83de0bd592b255aff13e6bce420b3,
  0x25af7ce0e5e10357685e95f92339753ad81a56d28ecc193b235288a3e6f137db,
  0x25b4ce7bd2294390c094d6a55edd68b970eed7aae88b2bff1f7c0187fe35011f,
  0x22c543f10f6c89ec387e53f1908a88e5de9cef28ebdf30b18cb9d54c1e02b631,
  0x0236f93e7789c4724fc7908a9f191e1e425e906a919d7a34df668e74882f87a9,
  0x29350b401166ca010e7d27e37d05da99652bdae114eb01659cb497af980c4b52,
  0x0eed787d65820d3f6bd31bbab547f75a65edb75d844ebb89ee1260916652363f,
  0x07cc1170f13b46f2036a753f520b3291fdcd0e99bd94297d1906f656f4de6fad,
  0x22b939233b1d7205f49bcf613a3d30b1908786d7f9f5d10c2059435689e8acea,
  0x01451762a0aab81c8aad1dc8bc33e870740f083a5aa85438add650ace60ae5a6,
  0x23506bb5d8727d4461fabf1025d46d1fe32eaa61dec7da57e704fec0892fce89,
  0x2e484c44e838aea0bac06ae3f71bdd092a3709531e1efea97f8bd68907355522,
  0x0f4bc7d07ebafd64379e78c50bd2e42baf4a594545cedc2545418da26835b54c,
  0x1f4d3c8f6583e9e5fa76637862faaee851582388725df460e620996d50d8e74e,
  0x093514e0c70711f82660d07be0e4a988fae02abc7b681d9153eb9bcb48fe7389,
  0x1adab0c8e2b3bad346699a2b5f3bc03643ee83ece47228f24a58e0a347e153d8,
  0x1672b1726057d99dd14709ebb474641a378c1b94b8072bac1a22dbef9e80dad2,
  0x1dfd53d4576af2e38f44f53fdcab468cc5d8e2fae0acc4ee30d47b239b479c14,
  0x0c6888a10b75b0f3a70a36263a37e17fe6d77d640f6fc3debc7f207753205c60,
  0x1addb933a65be77092b34a7e77d12fe8611a61e00ee6848b85091ecca9d1e508,
  0x00d7540dcd268a845c10ae18d1de933cf638ff5425f0afff7935628e299d1791,
  0x140c0e42687e9ead01b2827a5664ca9c26fedde4acd99db1d316939d20b82c0e,
  0x2f0c3a115d4317d191ba89b8d13d1806c20a0f9b24f8c5edc091e2ae56565984,
  0x0c4ee778ff7c14553006ed220cf9c81008a0cff670b22b82d8c538a1dc958c61,
  0x1704f2766d46f82c3693f00440ccc3609424ed26c0acc66227c3d7485de74c69,
  0x2f2d19cc3ea5d78ea7a02c1b51d244abf0769c9f8544e40239b66fe9009c3cfa,
  0x1ae03853b75fcaba5053f112e2a8e8dcdd7ee6cb9cfed9c7d6c766a806fc6629,
  0x0971aabf795241df51d131d0fa61aa5f3556921b2d6f014e4e41a86ddaf056d5,
  0x1408c316e6014e1a91d4cf6b6e0de73eda624f8380df1c875f5c29f7bfe2f646,
  0x1667f3fe2edbe850248abe42b543093b6c89f1f773ef285341691f39822ef5bd,
  0x13bf7c5d0d2c4376a48b0a03557cdf915b81718409e5c133424c69576500fe37,
  0x07620a6dfb0b6cec3016adf3d3533c24024b95347856b79719bc0ba743a62c2c,
  0x1574c7ef0c43545f36a8ca08bdbdd8b075d2959e2f322b731675de3e1982b4d0,
  0x269e4b5b7a2eb21afd567970a717ceec5bd4184571c254fdc06e03a7ff8378f0]

/-- Those of `poseidon-constants-opt.json`. -/
def optC : List ℕ := [
  0x09c46e9ec68e9bd4fe1faaba294cba38a71aa177534cdd1b6c7dc0dbd0abd7a7,
  0x0c0356530896eec42a97ed937f3135cfc5142b3ae405b8343c1d83ffa604cb81,
  0x250f5116a417d76aaa422952fcc5b33329f7714fc26d56c0432507fc740a87c4,
  0x264065ad87572e016659626c33c8213f7a373b9b8225a384f458d850bb4a949f,
  0x2bb8e94ad8d8adca6ce909ff94b8750729b294e4400376da39e33fda24bd42af,
  0x19051065d05d861ec813c15291d46a328f6201b21ad5d239d4f85fbb09a5dbae,
  0x245bd0617aa449618f5bd4550aac7b8e08d4d1c017165943cdf4776cdff3434a,
  0x09fb1a1118074ff79d8acbf5b02131e048a1570155e0f2b1c36ad091d491a88f,
  0x234ab504bbae8198972741952f78b7eb018ea192f05e54c1484ab8973ff66d88,
  0x01f66e509b84c355ae3d4c3513a282fd48f9c8c6439f42a7835fbcfe0f2a324c,
  0x1b22f5d69d725e6002cf00dd9ee62d1a5af0efdc4910f54127a920ccc43f91fa,
  0x0252b55edead135f852968b7f1c4f490fa659ecd5b47a78a7db91f65a6dfc23f,
  0x1773ae2e1637c92ad0677c2a047fea8eca4b53303f21871f6892a2c0487d7ff1,
  0x2d57b02906cd0ab82a79e76faeef6f87666eac093cf7715645d5ec9f7ac732f5,
  0x0a16f3a62824b281e8b2ddb8fc391a498fb061317faffa03696f834596313d93,
  0x1666f525f7f4b6988d2a37834ab747eae0587757b788eb7f1e26b08e36a08591,
  0x05da44f8e0a3b8bb13231f0ca25b50b57f5c82128e1dfec3e541d912ebe17b76,
  0x09a39ba9993303ba191bac8bdb3e0144dbfb5f39624cdd9524dc7861633bc95a,
  0x06c0fb824a19202d30ee6b418c0029e100e85a6d158f9f2a828dfd2ed0920a68,
  0x0387d8e056b2b176a9776b4492cb3b418adc660627e52bb3324283bf9522395d,
  0x147a1af82036ef5b28a7a37bea40d6ac3013cf1b62358396bf7156f5c2dc9684,
  0x3038d92060daeaaf1bd0482bd3f0613d88e8dff90a7a0525f9227e4cb7c6f81b,
  0x072940aa1d538a5a39a323f9e5d65616cf6c223339006f9789a97245532908f5,
  0x2d3d604949f4e14c70b8a879aedec49b3a367ba216af048f464ed6f15e2b9023,
  0x225b9e4f35c7549f80774c2b4d18309b2dcf7c7287b982e49746a176641e73c5,
  0x1ea781288fdf13b2190095a2344828e37dfe81c75a09709f0d139bbbf6c70414,
  0x08e96c3e7e8de4432b202405458468b90dc6890d4cee128b3502e5b6cb4aeeeb,
  0x05b43da7c8aa29af6dcaae57d070b49d29ce889a64a4ac183e85d55b366c805f,
  0x00bec98a034e3b8af7ba4861f1ad5a48dcef7c996e7a51c7cdde724d8f610e52,
  0x2eb67ccfa29e2b422b9f84a5d0575fc435b30fcae303039480be384ee4ebe72a,
  0x102bbdc21a3f147bf04eedee5d70bd084a7105c631c86ecd2c4e8749a13915ca,
  0x274bc16c88721babfd5bbe8d8562c1bf127ae38915280fbb8e3115cad3582f79,
  0x185cece417549b25283de04511f769101c8850b409d4928ab831611351bd9938,
  0x13c73fb043f7e978bc9cfb55c7faacb4f4c823674abe17737059ac0a32c36007,
  0x24b3a1d83308742b360c9c60595673e201cdd4cef5a4145c933c4e5969481d70,
  0x18b5ae94df9ec97aaa2a8f0f42425bcccdc8266a070f866ef0f48d7a3744398b,
  0x20eb398cb958cc2ccc7cb1fac38501abbe38169b2d8522d9e5f099f2d5905cb4,
  0x1e588dd3ec8b0d252c2c7c0c78a02b22bbbad1f4dcaa2e78a8b8eef2f4e29344,
  0x0f8bf3bd6c22ba3b1bf3ab2e3fb40818cd4217ffbaf294ca42331d4e3043a0a6,
  0x0388c9fcf30fc2841d648f46bad01dd10bee9dc184d25eabc9f617021109cec3,
  0x2bb7f397c5941ac67befa8b232f15c8853dac263da793555441a90cec83b6454,
  0x17f389b52f9ea7a98874a4a31ef6a7beb43fb17db0e499250bb3f0181c59fb21,
  0x03a2090eacb897a31fb10561d560a9aeec24b7ad14d17b145f20c875a0b28c7c,
  0x0c398534f0eb580f1fe4bf64553389e67cca4714399430e09619dcbee17ba099,
  0x07095ac9fda46afa7f181259e3635feffa7f11ee63f3ee777a5cebf4822328c4,
  0x2046f7cf1c8f13ef2b69cbc8bc0d5d809f82568abe2b33d1cd060958b1ced683,
  0x2c274136a5de2849de6e7f92f9097296501acb68d56138fbcb660c4cb0f69107,
  0x1c4d5178acb5c6b6eceef23afc6f16ec7b0383094cb6467e8d0f4507b3cf74c3,
  0x065b1447d0d64ceced116785b92c63a6a7dd9701507dcbe8b909325e28f7b8d3,
  0x2265d7e244881220c81a193d979330409c9bfa333438951340e023e7b72a1961,
  0x15b12b355af7e05637a1c76e67f9cec6fca8a6449b37669f6850502256b30aba,
  0x1a1522fecc6ae028e4d3e3029497b88f35c2b48c687af168ec2582d9075b4387,
  0x22f56e79e81b7496e472a641a053c414bcc53b0a9350e2589240803076f58f26,
  0x202ddb66d0988994e7aabad692ceac4e2324672a17ab8417d1ee278afd17fd0c,
  0x12b0701e8813c5b21a8e30208f8f1158b96cd428ae77bdea72f84510f73edfce,
  0x1e63fd20e706e1407c8838ceb26b84c9fe693fdde0eb1e1a9df7e84e53eeee7e,
  0x20a16c5a86256deffd15af174c39f9d9aa11500676ac7e570088280dd1896259,
  0x1c8f8bf8e153da55ad5aca2eaaee38da563e0435c0f2f37c27558fb9bae0a3eb,
  0x0d7732687bb7bf5f3aabcfdcc4fbb67e159c1983213e416c3880124fddf187c9,
  0x0cdd04475a86999a2edcbbbf8264b195e108b3b60b6475d835f6ccef9e2f6865,
  0x2fe65586cd4e754b4c63a88c2ed3f9ba0e3bfa43f547b41153560c214fe3cbcd,
  0x0503cf963c8273604e659128ec29261f62399815d98c56dbf4f2837c727ad4d9,
  0x1ee48ea27839061b78379936f6d97ca9400b393ef5fdf38ef1475c8742cb334c,
  0x1a423f8d8fc892b22d7cd5bf0197c575c579e83563d04859d73b2c1c5c0413f9,
  0x069a0da50133e9952f00e61778972a7be0e8d8ab76c95616ae465636abb97ec7,
  0x1bf7879dd42f2cbb91c65a0976356f67964c2f94dfbf0e44cf2b9909165d8614,
  0x1b23dccf485822065c8fc0afe610be7164e25056267f6c4a805fffd4547a0b98,
  0x2ebe90d6f6fdca420e0c2e004ce5c5a4409e564c9c4f3671e3011f627bec7c2e,
  0x167cd6930535a816dfebe81d20c376e77687760f3a2fa0da290b2f4d6c6863f7,
  0x08865c10f4a633c54ccc8b68b79df285f19f1210374cc64e3c8a966d4f90264b,
  0x1de902fbc0bf01951ca25abb39d78894721b37e071851b03a72cc6b833b7893b,
  0x0e3eca007699dd0f852eb22da642e495f67c988dd5bf0137676b16a31eab4667]

/-- The rows and columns of its sparse matrices. -/
def optS : List ℕ := [
  0x066f6f85d6f68a85ec10345351a23a3aaf07f38af8c952a7bceca70bd2af7ad5,
  0x1fd20dcb58503896fd52998d6a5be6f12ec33b3cbd590c793e45de825ff8cb5f,
  0x08c8295df0ba11861e97f0cdde8f202a7096c1e6452d33d64a11b5be4e0a1efb,
  0x066f6f85d6f68a85ec10345351a23a3aaf07f38af8c952a7bceca70bd2af7ad5,
  0x2458ee6d7c526073d165d2b08b95cf8947e20e05a76bc12b401b996421e89835,
  0x18c235e6e723390aa65baf06ffa557829f78a2fe1fbfb44eef84e938209c92f9,
  0x066f6f85d6f68a85ec10345351a23a3aaf07f38af8c952a7bceca70bd2af7ad5,
  0x1868e106689f8ea2e9c561b4b192899d07b52e58595c393436c37df24976a584,
  0x2d5161804f0ec6445cb8904ad3e8e9ec21153350df4075c9cbe840b7b609ca92,
  0x066f6f85d6f68a85ec10345351a23a3aaf07f38af8c952a7bceca70bd2af7ad5,
  0x03510550ddf6292355c690f03b9b815aab2dc3f4914612da7ecb79ddcf7b0b90,
  0x09a2e7bb3b278a1d5f264a26345ad8365efe0058403d8a52909cf2d5f6ee6170,
  0x066f6f85d6f68a85ec10345351a23a3aaf07f38af8c952a7bceca70bd2af7ad5,
  0x13dd4148c491a166b015a7a4233f4e488ae94a0e6439be66fe149b50b55759c0,
  0x1d2d3b261f5beb3fc010f42ec3825649d90150eee4ce55dc9f86ddf110295550,
  0x066f6f85d6f68a85ec10345351a23a3aaf07f38af8c952a7bceca70bd2af7ad5,
  0x221b4477678dad4e2abcabb47eb5e7a4129190b3855ae4eecd8ba68643ff77e5,
  0x16b76448e9855f165f2043f5f09bedf1830a4998ff45ebc25f1d40e8e8fcd6e4,
  0x066f6f85d6f68a85ec10345351a23a3aaf07f38af8c952a7bceca70bd2af7ad5,
  0x2a10b6a2cbae9578142cf66104b69e448eae6d3bd53ac8602363460e2286c92d,
  0x2db84dba4a9d96cebe94dfb1d59edfa58ccfa871b9c067c522e31949b69f2bec,
  0x066f6f85d6f68a85ec10345351a23a3aaf07f38af8c952a7bceca70bd2af7ad5,
  0x1ca9bbf26402238296ad897ec1a55b4fc273cf20c1f68f03d5c149be890e7b60,
  0x283d37fa5e35d25c83d1b9d34ecb00cd03848ca730ace52f367e0d7b5fde30d6,
  0x066f6f85d6f68a85ec10345351a23a3aaf07f38af8c952a7bceca70bd2af7ad5,
  0x0349057941b141ceea5a063a0ff8ab221271e618a174e5d8009ab5f9c791d960,
  0x1af2e1d98c3c09908503883d3b9ed50fe8958eb1e5d6538016c344d40070efc2,
  0x066f6f85d6f68a85ec10345351a23a3aaf07f38af8c952a7bceca70bd2af7ad5,
  0x05b7bddacf4522b0aa3082e2c05448962743d0023bb6402291f592e6c1da4679,
  0x1fceeccf337e8a903cf6a0c21a6445da7ff8c4a0bc78909c7e704131c8a35241,
  0x066f6f85d6f68a85ec10345351a23a3aaf07f38af8c952a7bceca70bd2af7ad5,
  0x2f30a25f4d843e28afdd850f31d1920ee058dfb6d91c322fc960473e917a6768,
  0x1a55160bf49a4936bcc59162617026194574a89e5857751b68f3c08f7c07ce87,
  0x066f6f85d6f68a85ec10345351a23a3aaf07f38af8c952a7bceca70bd2af7ad5,
  0x19c66ee887ab4763b17573b6ad192b7df1af24f54761998b03b342b95709041e,
  0x1a82828b7f87eba7f5f8624b31e1115506ab3e723266777b3789c9104f9c781e,
  0x066f6f85d6f68a85ec10345351a23a3aaf07f38af8c952a7bceca70bd2af7ad5,
  0x0f506d3199d96083de9fc4e71b250825e84a242d81ae3a81d99debc7faed3385,
  0x1cac7482d91faef657db9072a97567ff172374d99987a8b24b2c04472aab9f83,
  0x066f6f85d6f68a85ec10345351a23a3aaf07f38af8c952a7bceca70bd2af7ad5,
  0x249b26b1d4e333b23f3192f0e4f52884ee63d489ee153ecc3216939a72848150,
  0x13d1aeb10b225e2a8b97131154407d1bf145972dcd3a0073339dca336180dfb1,
  0x066f6f85d6f68a85ec10345351a23a3aaf07f38af8c952a7bceca70bd2af7ad5,
  0x0b90f72b7fcf867eb2e0f9400787d1dd52720cbc14a7095784e4116624d16df3,
  0x025e346edd8dd55142abd2135951398230f0c8d08bc5c365c5a6cd70011a8f39,
  0x066f6f85d6f68a85ec10345351a23a3aaf07f38af8c952a7bceca70bd2af7ad5,
  0x263003b8ed502577c6427b0b4589ef6ceb87b4e21b7c424e587f2630a7b868a2,
  0x2d92ef6b8bdc53dd1b6c5b1c92e5a8248eb9c12255b910ff89c09961ec12ead7,
  0x066f6f85d6f68a85ec10345351a23a3aaf07f38af8c952a7bceca70bd2af7ad5,
  0x2eb36b6d0bfc593a8d6d9459a7af04f0b15bcae4181bbb123543870c11316681,
  0x1e48bb591146f461c1d2f085f3979139e37f4a5c2354952c833b2791f59034e0,
  0x066f6f85d6f68a85ec10345351a23a3aaf07f38af8c952a7bceca70bd2af7ad5,
  0x0e759913751418871f0351ee180ca466cf8a03f541079c1b51bb001550d8162a,
  0x1e45e194b16936c5b1f81c72eb0fe8c62e859c4661b14b7e327503cf49eca55b,
  0x066f6f85d6f68a85ec10345351a23a3aaf07f38af8c952a7bceca70bd2af7ad5,
  0x28c8b58c9e4cfb830a51af4529318b6269c4f6ac1867ed1174ce4aefc57fbeb3,
  0x255b293fcb1be27d9e5aafd4cd28c26746fc3520889367eed1355c2c41b93016,
  0x066f6f85d6f68a85ec10345351a23a3aaf07f38af8c952a7bceca70bd2af7ad5,
  0x1db1367a8e37c5597835365bbfa66f6ecf40da775a54c35d5c94da70415544fe,
  0x0cdd97951c2f0b885edc683b9db74f08df61286578a69989a9fed7ca34c5b4ce,
  0x066f6f85d6f68a85ec10345351a23a3aaf07f38af8c952a7bceca70bd2af7ad5,
  0x0e4d4e42cacb9fa6745c6dd3630ec5a4cca8a912b7ec28576ab3ba29c57306c9,
  0x2141a925c279e4c4e351641744750d4702d90ef2137d1905dada0bae3c7b3af6,
  0x066f6f85d6f68a85ec10345351a23a3aaf07f38af8c952a7bceca70bd2af7ad5,
  0x08f9f9b3abc79ed89c20597cfbfe49021119cc50648ce401dc50cb042a54d167,
  0x06af6c072313d868cd945c9f0eb7d4eadb24c8d4763fa042952b99353df2b236,
  0x066f6f85d6f68a85ec10345351a23a3aaf07f38af8c952a7bceca70bd2af7ad5,
  0x08b43c97bf4a40b4f376d1fa0c5e6e6955cbf9ba301f878ed3eae4ac812b79d1,
  0x11e0e607ac6781ca34a714e6c5b7a4f839852377446520032420e2abe16115a7,
  0x066f6f85d6f68a85ec10345351a23a3aaf07f38af8c952a7bceca70bd2af7ad5,
  0x2dd7f0e1b303f425cb7e6b1c30ca428b3bff751e7b651152eb4de008b2c00da6,
  0x107d7f92d1c6a24068b917120f993ae3ee84349aaadb71eaa4128b349812dda8,
  0x066f6f85d6f68a85ec10345351a23a3aaf07f38af8c952a7bceca70bd2af7ad5,
  0x10ab9e8e4ec9ad5fdb1166c64ed2fc3223c7e16dd982f66dcd820a7861ae1463,
  0x3000d3b3ddb3fb864ccc729984468a7317397713303544a84d7de1d209d25cb1,
  0x066f6f85d6f68a85ec10345351a23a3aaf07f38af8c952a7bceca70bd2af7ad5,
  0x17610359e624e7feb3eede8099a1dc45c4a0c6b2debc2dc8f200fa27a0da6ebd,
  0x2affce5b7a7d8c5aac04f6c2708794cd01a8439b65d74df5982d24ad2a944eb8,
  0x066f6f85d6f68a85ec10345351a23a3aaf07f38af8c952a7bceca70bd2af7ad5,
  0x2d439fbefe8d2b65ed32658bd21fc5604408d5fb69e1f64965e5895ca61c6e09,
  0x0b51cc2a1b1c329fd72a286d4938540db3cfc4320de363a3f68a7935cd193ab9,
  0x066f6f85d6f68a85ec10345351a23a3aaf07f38af8c952a7bceca70bd2af7ad5,
  0x1468ea2868d31f7ebafe78af8c24656a3185963272f34c51d5e2695c43bd3247,
  0x29553949324f27f4fa7bd734920e9be7b662a0ec5797fdd4ed3fe19464879b95,
  0x066f6f85d6f68a85ec10345351a23a3aaf07f38af8c952a7bceca70bd2af7ad5,
  0x0d9780ee7d395f7c977fd4b86329f6cd720047a7f9d1672d18d2cfb428343afa,
  0x210a098afd451fca3997860e220106c7487f4716831dfff78036de18f17cb31d,
  0x066f6f85d6f68a85ec10345351a23a3aaf07f38af8c952a7bceca70bd2af7ad5,
  0x1cedcfe2751b360e73d6ef5af88cd5b75a2b2d97c571889a0dda87a0dd90ad81,
  0x22719f26e16723c1bd45a619e91836c340a304f3648672f90de2b047880aee03,
  0x066f6f85d6f68a85ec10345351a23a3aaf07f38af8c952a7bceca70bd2af7ad5,
  0x0ae0cec959c4c7859f670f19c7490f8eef6ad66346e04613c1350597be000be2,
  0x177560de731482bdb7316c238bc38f20a16cd03edda2e0393b1c515ec64b0727,
  0x066f6f85d6f68a85ec10345351a23a3aaf07f38af8c952a7bceca70bd2af7ad5,
  0x1f19a267da0b8fc2b4850a4f458add5514edf0aad6f7a7f175aef0b98e816a40,
  0x1da77cdeff9cf822b54509031ea2888f6f398051ae1870afd3770e7724c09f31,
  0x066f6f85d6f68a85ec10345351a23a3aaf07f38af8c952a7bceca70bd2af7ad5,
  0x02d1e17aaaa96743665a869970255c267ba338cfd43ec9b33ecaa764f48f17a8,
  0x0c376a8ff1da39dec980316ea26ef66fae5c86877a8f82266c14670024329d12,
  0x066f6f85d6f68a85ec10345351a23a3aaf07f38af8c952a7bceca70bd2af7ad5,
  0x00bb856048ef43a77b39560adeb3c7a9a783db5cad8e3f422495a69c56680a79,
  0x1d81808a3c73be1bb2c99b6403f3ac4a532c88d29ad652cbb20061656006c19a,
  0x066f6f85d6f68a85ec10345351a23a3aaf07f38af8c952a7bceca70bd2af7ad5,
  0x15e52ae83a9db363d24cc5900df8ff0b81e445d4409a0e2aafd3223c354add62,
  0x2aa2fc03cb5f72e237f7d88ef66f765a159be533354ffb88751abb8885203ad4,
  0x066f6f85d6f68a85ec10345351a23a3aaf07f38af8c952a7bceca70bd2af7ad5,
  0x10afedad881a1da7dace5c69546d0890bc35f41992b1062a7c7789b03ac932c0,
  0x1d18193701979ad24042446e947dfedfad22a6e7d4f6bde875fe2d8c882c858a,
  0x066f6f85d6f68a85ec10345351a23a3aaf07f38af8c952a7bceca70bd2af7ad5,
  0x02f0b8457690e4d9770beb0300a09fc7001cd417061e826bc450dd96d7b24f36,
  0x0dc31897d61d70e16870e0b02b9776bc53b8b9848be3062f8da18ff9d981effb,
  0x066f6f85d6f68a85ec10345351a23a3aaf07f38af8c952a7bceca70bd2af7ad5,
  0x0203c94bb7694f9cdad3a14a7603e3cb69c141200fd46bdc9ebb0d5d73663525,
  0x2b778a231f21f8a6cdaa3c84372933e610eb985dcc81af9926fe8b09f1afc81f,
  0x066f6f85d6f68a85ec10345351a23a3aaf07f38af8c952a7bceca70bd2af7ad5,
  0x2c8a0376c766055e6a9d5272a2466a28faa7e359db111e84d98b2138c8c9d5d2,
  0x2ffda33f5b85a4fde16ba590ae0cd49fce4ad01e095f94f49138fe44aaa8c778,
  0x066f6f85d6f68a85ec10345351a23a3aaf07f38af8c952a7bceca70bd2af7ad5,
  0x0318af53cfd822ec2a7f4d40614f72fc6cb27f44067fb58d15789bbe15444844,
  0x0d24997465c5b23d4e7436a4ecef2f91ce9f8910b6fa8a4a3ba6f884bd7206cc,
  0x066f6f85d6f68a85ec10345351a23a3aaf07f38af8c952a7bceca70bd2af7ad5,
  0x01ea39e4d9edebf65d648e42880b396a6becfa66b3c5e47ff9a33577a3d2a658,
  0x15e4e016c94a026fd9ede9bdcf11268f7735cf5ebdbdd4a092fda1ee8b50f2ff,
  0x066f6f85d6f68a85ec10345351a23a3aaf07f38af8c952a7bceca70bd2af7ad5,
  0x2ef185c4b1cdb7072a82fd43fe4bb145c4dbd04973fb3ef76e757b00392eac9d,
  0x15cedc8a4ef6f7017d1dd3d92255beb54f1d7d1e3bb0204cb07ab81c71435902,
  0x066f6f85d6f68a85ec10345351a23a3aaf07f38af8c952a7bceca70bd2af7ad5,
  0x0dbf148ee8983db0c117b111270f1c2c8219565733684494eaf5ce0645e5749a,
  0x2842f44ddc05dbd5b319b1efe6b3eabced380b99ffc42dfb08805ea2b4c48aab,
  0x066f6f85d6f68a85ec10345351a23a3aaf07f38af8c952a7bceca70bd2af7ad5,
  0x1aa07e7ffa4a036f1b7efb2e124e75028426fdf5f1e4fb8bb62e1ebf3298af2c,
  0x1e5a2abded8c7022a8ba97ea683b605d09f017fd43e92296656561eb96d25d32,
  0x066f6f85d6f68a85ec10345351a23a3aaf07f38af8c952a7bceca70bd2af7ad5,
  0x0acf3ab02c018573bc3d36b0cb73de6df11e8cc1dea223e98a2a0cfbc028d2af,
  0x1bab48ad2c31dcec5fcc6df1f02dc4164f949202122673b06105f7ff1beabb29,
  0x066f6f85d6f68a85ec10345351a23a3aaf07f38af8c952a7bceca70bd2af7ad5,
  0x01a36af3ad1c61cddc06a2a4c6967dc004b589a4a8b358ded11a38cce6a7f31c,
  0x125e0e822514cf49536fa643a66e1d2fa6788cb5b4805c9cd3cb69a584e0d8d2,
  0x066f6f85d6f68a85ec10345351a23a3aaf07f38af8c952a7bceca70bd2af7ad5,
  0x085be8486ecb3dbf71d63940d8d689f9b142434a14d5d4f8c93d7d0f17bfcbd3,
  0x275651360d88063b2feead8bc71ae9c002d5db9822ab63b058f11e0d506b17e3,
  0x066f6f85d6f68a85ec10345351a23a3aaf07f38af8c952a7bceca70bd2af7ad5,
  0x0f7eb245596d9ac5ecc21446ed94c80289db1e1f9f620c18f7815b247b228a6f,
  0x221862a04a00f406bc67f7677ab459c9d887c8bb88091513f0fc2fb103ad549c,
  0x066f6f85d6f68a85ec10345351a23a3aaf07f38af8c952a7bceca70bd2af7ad5,
  0x1bd575603b7085afcf0a588a5fadf8705cda7eb1d4ab7e70137dbd47fc26e3a2,
  0x146d1d176245ff772db8575d986a82e931079de61e67184c4158a6f62db446f1,
  0x066f6f85d6f68a85ec10345351a23a3aaf07f38af8c952a7bceca70bd2af7ad5,
  0x02202ec1e7fd85c4749393664f024d578d392d59cb12a42e2ef4fa728da4cd3a,
  0x01c0e72693a0e12bff0ab3e12a1203c846b5dfdb9dd5ba26a7309c6970371421,
  0x066f6f85d6f68a85ec10345351a23a3aaf07f38af8c952a7bceca70bd2af7ad5,
  0x2b3d8733bb4872b6cbb0bd83378163ab14a585dbf5ad9758c07948de056071e0,
  0x185d12aa30aed1a0575b9d3dcee6332f4fa34643a429cfdd8de0fdc87a29640e,
  0x066f6f85d6f68a85ec10345351a23a3aaf07f38af8c952a7bceca70bd2af7ad5,
  0x1b394227301f28bee29bd3dfc35dfcc8e1c60ec6dd944dd33593a9a77675f641,
  0x15b1cfd522bdc418f6c08a3deb114a4ff48854b4a496537d41eb3a325f2265e7,
  0x066f6f85d6f68a85ec10345351a23a3aaf07f38af8c952a7bceca70bd2af7ad5,
  0x0bca3aef46833e8a30a9db0a16b59abc619800d2da15da01dd5a0713ff4cbbb8,
  0x0529062596e51b8ca2c2f8c7cf4adff0853150015e2e6b4ce7af212500f5e6ca,
  0x066f6f85d6f68a85ec10345351a23a3aaf07f38af8c952a7bceca70bd2af7ad5,
  0x02fda517f4261325a7366a45da1e847cd150d022be2982eb6105dcfc31fdef60,
  0x1fec5a09cea4d25e5b7ff9d2fbab64d264db993e8d8629b7154a1539d12dd1cf,
  0x066f6f85d6f68a85ec10345351a23a3aaf07f38af8c952a7bceca70bd2af7ad5,
  0x2d87776eef5dfabbe5605094751af17b831717fa3f8e01943b74d1a9a42eb1bb,
  0x0d257a437910f3995aebd0afb9be584967afa4188c4684958f68c39f9f01ff19,
  0x066f6f85d6f68a85ec10345351a23a3aaf07f38af8c952a7bceca70bd2af7ad5,
  0x098f0aa06092ed2cbcbac004f90799e6e1c32fc24a9f0b6066f8d7289716aee4,
  0x0cc57cdbb08507d62bf67a4493cc262fb6c09d557013fff1f573f431221f8ff9]

/-- The matrices. -/
def M : List (List ℕ) :=
  [[0x066f6f85d6f68a85ec10345351a23a3aaf07f38af8c952a7bceca70bd2af7ad5,
    0x2b9d4b4110c9ae997782e1509b1d0fdb20a7c02bbd8bea7305462b9f8125b1e8],
  [0x0cc57cdbb08507d62bf67a4493cc262fb6c09d557013fff1f573f431221f8ff9,
    0x1274e649a32ed355a31a6ed69724e1adade857e86eb5c3a121bcd147943203c8]]

def optM : List (List ℕ) :=
  [[0x066f6f85d6f68a85ec10345351a23a3aaf07f38af8c952a7bceca70bd2af7ad5,
    0x0cc57cdbb08507d62bf67a4493cc262fb6c09d557013fff1f573f431221f8ff9],
  [0x2b9d4b4110c9ae997782e1509b1d0fdb20a7c02bbd8bea7305462b9f8125b1e8,
    0x1274e649a32ed355a31a6ed69724e1adade857e86eb5c3a121bcd147943203c8]]

def optP : List (List ℕ) :=
  [[0x066f6f85d6f68a85ec10345351a23a3aaf07f38af8c952a7bceca70bd2af7ad5,
    0x20e3e914631964e394d269ae59f17efee3fecee512cbb163d32cc760be574bd6],
  [0x2b9d4b4110c9ae997782e1509b1d0fdb20a7c02bbd8bea7305462b9f8125b1e8,
    0x10a44ed9dd9ce568563394632833d8633690d329ae737c8c7220a9b197ee3f46]]

def constants : PoseidonConstants := ⟨[C], [M]⟩

def OPT : OptConstants := ⟨[optC], [optS], [optM], [optP]⟩

/-! ## The tables agree -/

/-- The inverse of the lower entry of `M`. -/
def lowerInv : ℕ := 0x258c2ab041c240aa6d8c2a5620cc957c977e5c0624c80166ddb4af5150397e81

def lowerPow : ℕ → ℕ
  | 0 => 1
  | n + 1 => lowerPow n * lowerInv % bn254r

/-- What the partial rounds keep apart. -/
def K (r : ℕ) : Matrix (Fin 2) (Fin 2) F := !![1, 0; 0, (lowerPow (56 - r) : ℕ)]

/-- The difference, modulo the prime. -/
def minus (a b : ℕ) : ℕ := (a + (bn254r - b % bn254r)) % bn254r

def offset : ℕ → ℕ
  | 0 => minus (C.getD 9 0) (entry M 1 0 * optC.getD 8 0 + entry M 1 1 * optC.getD 9 0)
  | r + 1 => minus (entry M 1 1 * offset r + C.getD (2 * r + 11) 0)
      (entry M 1 0 * optC.getD (10 + r) 0)

def d (r : ℕ) : Fin 2 → F := ![0, (offset r : ℕ)]

theorem agree : Agree OPT constants 1 K d where
  plain := ⟨by decide +kernel, by decide +kernel, by decide +kernel⟩
  opt := ⟨by decide +kernel, by decide +kernel, by decide +kernel, by decide +kernel,
    by decide +kernel⟩
  mixes := by decide +kernel
  form := {
    first := by decide +kernel
    before := by decide +kernel
    enter := by decide +kernel
    enterConst := by decide +kernel
    fixes := fun _ _ => ⟨fun j => by fin_cases j <;> rfl, fun i => by fin_cases i <;> rfl⟩
    zero := fun _ _ => rfl
    step := by decide +kernel
    stepConst := by decide +kernel
    leave := by decide +kernel
    leaveConst := by decide +kernel
    after := by decide +kernel }

/-- The hash of seven, with the tables of the repository. -/
theorem hash_eq_poseidonStrategy_seven :
    hash OPT [7] = (poseidonStrategy constants [0, 7]).map fun state => state.getD 0 0 :=
  hash_eq_poseidonStrategy (K := K) (d := d) agree (by decide) (by decide)

/-- The mix of the repository can be undone. -/
theorem mulVec_injective :
    Function.Injective fun x : Fin 2 → F => plainMatrix constants 1 *ᵥ x := by
  have hdet : (plainMatrix constants 1).det ≠ 0 := by
    rw [Matrix.det_fin_two]
    decide +kernel
  exact Matrix.mulVec_injective_of_isUnit
    ((Matrix.isUnit_iff_isUnit_det _).mpr (isUnit_iff_ne_zero.mpr hdet))

/-- Seven is told from eight, and only numbers that are equal modulo the prime are not. -/
theorem poseidonStrategy_injective_seven_eight :
    [0, 7].map (fun a : ℕ => F1Field.e a)
        = [0, 7 + bn254r].map (fun a : ℕ => F1Field.e a) ∧
      ¬poseidonStrategy constants [0, 7] = poseidonStrategy constants [0, 8] :=
  ⟨poseidonStrategy_injective agree.plain (by decide) (by decide) mulVec_injective rfl rfl
      (by decide +kernel),
    fun h => absurd (poseidonStrategy_injective agree.plain (by decide) (by decide)
      mulVec_injective rfl rfl h) (by decide +kernel)⟩

end OneInput

end Albus.Core.PoseidonOpt
